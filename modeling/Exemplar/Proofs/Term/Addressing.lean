import Exemplar.Proofs.Term.Replacement

/-!
# Addressing of subterms

**The list of subterms, the lookup at a path and the replacement at a path fit together** (`addressing`).

The list holds what the paths lead to, one entry for each node, in lexicographic order of the paths: a path
before those that go on from it, and arguments from the left (`paths_sorted`). Lookup and replacement obey
the laws of a lens. At a path that leads nowhere a replacement changes nothing, and replacements at paths
that part from each other do not meet.
-/

namespace Exemplar.Term

variable {e s t : Term} {p q : Path}

/-! ## The list of subterms -/

mutual

theorem length_subterms : (e : Term) → e.subterms.length = e.nodes
  | .lit _ => rfl
  | .var _ => rfl
  | .apply id args => by rw [subterms, List.length_cons, length_subtermsFrom 0 args, nodes, Nat.add_comm]

theorem length_subtermsFrom (i : Nat) : (args : List Term) → (subtermsFrom i args).length = nodesList args
  | [] => rfl
  | a :: args => by
    rw [subtermsFrom, List.length_append, List.length_map, length_subterms a,
      length_subtermsFrom (i + 1) args, nodesList]

end

mutual

theorem paths_sorted : (e : Term) → e.paths.Pairwise (List.Lex (· < ·))
  | .lit _ => List.pairwise_singleton _ _
  | .var _ => List.pairwise_singleton _ _
  | .apply id args => by
    rw [paths, subterms, List.map_cons, List.pairwise_cons]
    refine ⟨fun path hpath => ?_, pathsFrom_sorted 0 args⟩
    obtain ⟨⟨_, s⟩, hmem, rfl⟩ := List.mem_map.mp hpath
    obtain ⟨j, a, rest, -, rfl, -⟩ := mem_subtermsFrom.mp hmem
    exact .nil

theorem pathsFrom_sorted (i : Nat) : (args : List Term) →
    ((subtermsFrom i args).map Prod.fst).Pairwise (List.Lex (· < ·))
  | [] => .nil
  | a :: args => by
    have hhead : ((a.subterms.map fun s => (i :: s.1, s.2)).map Prod.fst) = a.paths.map (i :: ·) := by
      simp [paths]
    rw [subtermsFrom, List.map_append, hhead, List.pairwise_append, List.pairwise_map]
    refine ⟨(paths_sorted a).imp .cons, pathsFrom_sorted (i + 1) args, ?_⟩
    -- the paths into later arguments begin with a greater index
    intro path hpath path' hpath'
    obtain ⟨rest, -, rfl⟩ := List.mem_map.mp hpath
    obtain ⟨⟨_, s⟩, hmem, rfl⟩ := List.mem_map.mp hpath'
    obtain ⟨j, b, rest', -, rfl, -⟩ := mem_subtermsFrom.mp hmem
    exact .rel (by omega)

end

/-! ## Replacing and looking up -/

theorem modify_eq_self {α : Type} {f : α → α} {i : Nat} {xs : List α}
    (h : ∀ a, xs[i]? = some a → f a = a) : xs.modify i f = xs := by
  refine List.ext_getElem? fun j => ?_
  rw [List.getElem?_modify]
  by_cases hij : i = j
  · cases hj : xs[j]? with
    | none => rfl
    | some a => simp [hij, h a (hij ▸ hj)]
  · simp [hij]

theorem at?_replaceAt (h : e.at? p = some t) (r : Term) : (replaceAt r e p).at? p = some r := by
  induction p generalizing e with
  | nil => rw [replaceAt, at?]
  | cons i rest ih =>
    cases e with
    | apply id args =>
      rw [at?, Option.bind_eq_some_iff] at h
      obtain ⟨a, ha, hat⟩ := h
      rw [replaceAt, at?, List.getElem?_modify, ha]
      simpa using ih hat
    | _ => cases h

theorem replaceAt_at? (h : e.at? p = some t) : replaceAt t e p = e := by
  induction p generalizing e with
  | nil => rw [replaceAt, Option.some.inj h]
  | cons i rest ih =>
    cases e with
    | apply id args =>
      rw [at?, Option.bind_eq_some_iff] at h
      obtain ⟨a, ha, hat⟩ := h
      rw [replaceAt, modify_eq_self fun b hb => ?_]
      obtain rfl : a = b := Option.some.inj (ha.symm.trans hb)
      exact ih hat
    | _ => cases h

theorem replaceAt_of_at?_eq_none (h : e.at? p = none) (r : Term) : replaceAt r e p = e := by
  induction p generalizing e with
  | nil => cases h
  | cons i rest ih =>
    cases e with
    | apply id args =>
      rw [at?, Option.bind_eq_none_iff] at h
      rw [replaceAt, modify_eq_self fun a ha => ih (h a ha)]
    | _ => rfl

theorem replaceAt_replaceAt (r s e : Term) (p : Path) :
    replaceAt s (replaceAt r e p) p = replaceAt s e p := by
  induction p generalizing e with
  | nil => rw [replaceAt, replaceAt]
  | cons i rest ih =>
    cases e with
    | apply id args =>
      rw [replaceAt, replaceAt, replaceAt, List.modify_modify_eq]
      congr 2
      exact funext fun a => ih a
    | _ => rfl

/-! ## Paths that part -/

/-- None of the two paths leads through the other. -/
def Part (p q : Path) : Prop := ¬ p <+: q ∧ ¬ q <+: p

theorem Part.cases {i j : Nat} (h : Part (i :: p) (j :: q)) : i ≠ j ∨ i = j ∧ Part p q := by
  by_cases hij : i = j
  · refine .inr ⟨hij, fun hp => h.1 ?_, fun hq => h.2 ?_⟩
    · exact List.cons_prefix_cons.mpr ⟨hij, hp⟩
    · exact List.cons_prefix_cons.mpr ⟨hij.symm, hq⟩
  · exact .inl hij

theorem at?_replaceAt_of_part (h : Part p q) (r e : Term) : (replaceAt r e p).at? q = e.at? q := by
  induction p generalizing e q with
  | nil => exact absurd List.nil_prefix h.1
  | cons i p ih =>
    cases q with
    | nil => exact absurd List.nil_prefix h.2
    | cons j q =>
      cases e with
      | apply id args =>
        rw [replaceAt, at?, at?, List.getElem?_modify]
        rcases h.cases with hij | ⟨rfl, hrest⟩
        · simp [hij]
        · cases args[i]? with
          | none => rfl
          | some a => simpa using ih hrest a
      | _ => rfl

theorem replaceAt_comm (h : Part p q) (r s e : Term) :
    replaceAt s (replaceAt r e p) q = replaceAt r (replaceAt s e q) p := by
  induction p generalizing e q with
  | nil => exact absurd List.nil_prefix h.1
  | cons i p ih =>
    cases q with
    | nil => exact absurd List.nil_prefix h.2
    | cons j q =>
      cases e with
      | apply id args =>
        rw [replaceAt, replaceAt, replaceAt, replaceAt]
        congr 1
        rcases h.cases with hij | ⟨rfl, hrest⟩
        · exact List.modify_modify_ne _ _ _ hij
        · rw [List.modify_modify_eq, List.modify_modify_eq]
          congr 1
          exact funext fun a => ih hrest a
      | _ => rfl

/-! ## The laws together -/

/-- **Subterms are addressed by paths.** The subterms of a term are what its paths lead to, one for each of
its nodes, with the paths in lexicographic order. Whatever is put at a path that leads somewhere is found
there; the subterm that stood there, put back, restores the term; of two replacements at one path the
second counts; and nodes are balanced. At other paths nothing is replaced. Replacements at paths that part
commute, and none is seen at the path of the other. -/
theorem addressing (e r s : Term) (p q : Path) :
    ((∀ path t, (path, t) ∈ e.subterms ↔ e.at? path = some t) ∧
      (e.subterms.map Prod.fst).Pairwise (List.Lex (· < ·)) ∧ e.subterms.length = e.nodes) ∧
    (∀ t, e.at? p = some t →
      (replaceAt r e p).at? p = some r ∧ replaceAt t e p = e ∧
        replaceAt s (replaceAt r e p) p = replaceAt s e p ∧
          (replaceAt r e p).nodes + t.nodes = e.nodes + r.nodes) ∧
    (e.at? p = none → replaceAt r e p = e) ∧
    (¬ p <+: q → ¬ q <+: p →
      replaceAt s (replaceAt r e p) q = replaceAt r (replaceAt s e q) p ∧
        (replaceAt r e p).at? q = e.at? q) := by
  refine ⟨⟨fun _ _ => mem_subterms_iff, paths_sorted e, length_subterms e⟩, fun t ht => ?_,
    fun hnone => replaceAt_of_at?_eq_none hnone r, fun hp hq => ?_⟩
  · have hnodes := nodes_add_of_symbols (replaced_replaceAt ht r).symbols_add
    exact ⟨at?_replaceAt ht r, replaceAt_at? ht, replaceAt_replaceAt r s e p, hnodes⟩
  · exact ⟨replaceAt_comm ⟨hp, hq⟩ r s e, at?_replaceAt_of_part ⟨hp, hq⟩ r e⟩

/-- The argument of an argument, and a path beside it. -/
theorem addressing_nested :
    let e : Term := .apply 0 [.apply 1 [.var 0, .lit (.int 1)], .var 1]
    let p : Path := [0, 1]
    let q : Path := [1]
    (e.at? p = some (.lit (.int 1)) ∧ ¬ p <+: q ∧ ¬ q <+: p) ∧
    (replaceAt (.var 2) e p).at? p = some (.var 2) ∧ replaceAt (.lit (.int 1)) e p = e ∧
    (replaceAt (.var 2) e p).nodes + 1 = e.nodes + 1 ∧
    replaceAt (.var 3) (replaceAt (.var 2) e p) q = replaceAt (.var 2) (replaceAt (.var 3) e q) p ∧
    (replaceAt (.var 2) e p).at? q = e.at? q := by
  intro e p q
  have hat : e.at? p = some (.lit (.int 1)) := rfl
  have hparts : ¬ p <+: q ∧ ¬ q <+: p := by decide
  obtain ⟨-, hvalid, -, hbeside⟩ := addressing e (.var 2) (.var 3) p q
  obtain ⟨hfound, hback, -, hnodes⟩ := hvalid _ hat
  obtain ⟨hcomm, hunseen⟩ := hbeside hparts.1 hparts.2
  exact ⟨⟨hat, hparts⟩, hfound, hback, hnodes, hcomm, hunseen⟩

end Exemplar.Term
