import Exemplar.Proofs.Growth
import Exemplar.Proofs.Verification.Termination

/-!
# Programs that reach the fixpoint operation

`Term.Reaches` says when a program reaches a primitive, whatever the bodies of the table are; they may
name each other in cycles. A program reaches exactly the closure of what it names
(`reaches_iff_mem_reach`).

The search of `Term.findsFix` follows the bodies depth first instead, enters none of them twice and stops
at the first fixpoint operation. If it comes to an end, it has left nothing to search at any position that
is reached (`noFix_of_search`). As many levels as there are primitives suffice, since each level below
another one has entered one more body (`thorough_search`).
-/

namespace Exemplar

/-! ## Reachability -/

/-- **What a program reaches**: the primitives that it applies, those that its function literals name, and
all that the body of a learned primitive it reaches goes on to reach. -/
inductive Term.Reaches (t : Table) : Term → PrimId → Prop
  | applied (id : PrimId) (args : List Term) : Reaches t (.apply id args) id
  | argument {id j : PrimId} {args : List Term} {a : Term} (ha : a ∈ args) (h : Reaches t a j) :
    Reaches t (.apply id args) j
  | literal {f : Fn} {id : PrimId} (h : id ∈ f.primitives) : Reaches t (.lit (.func f)) id
  | body {e body : Term} {id j : PrimId} {p : Primitive} (h : Reaches t e id)
    (hget : t.get? id = some p) (hrule : p.rule = .learned body) (hbody : Reaches t body j) :
    Reaches t e j

namespace Term

variable {t : Table} {e : Term} {id j : PrimId}

theorem Reaches.of_mem_primitives (h : id ∈ e.primitives) : e.Reaches t id := by
  induction e using Term.inductionOn with
  | lit v =>
    cases v with
    | func f => exact .literal h
    | _ => cases h
  | var i => cases h
  | apply i args ih =>
    rw [primitives, List.mem_cons, mem_primitivesList] at h
    rcases h with rfl | ⟨a, ha, hid⟩
    · exact .applied id args
    · exact .argument ha (ih a ha hid)

theorem Reaches.within {S : PrimId → Prop} (hclosed : ∀ i, S i → ∀ j ∈ t.callees i, S j)
    (h : e.Reaches t id) (he : ∀ i ∈ e.primitives, S i) : S id := by
  induction h with
  | applied id args => exact he id List.mem_cons_self
  | argument ha _ ih =>
    refine ih fun i hi => he i (List.mem_cons_of_mem _ (mem_primitivesList.mpr ⟨_, ha, hi⟩))
  | literal hid => exact he _ hid
  | body _ hget hrule _ ihReached ihBody =>
    refine ihBody fun i hi => hclosed _ (ihReached he) i ?_
    exact Table.mem_callees.mpr ⟨_, _, hget, hrule, hi⟩

theorem Reaches.callee (h : e.Reaches t id) (hj : j ∈ t.callees id) : e.Reaches t j := by
  obtain ⟨p, body, hget, hrule, hmem⟩ := Table.mem_callees.mp hj
  exact .body h hget hrule (.of_mem_primitives hmem)

theorem reaches_of_mem_reachIn {n : Nat} {ids : List PrimId} (hids : ∀ i ∈ ids, e.Reaches t i)
    (h : id ∈ t.reachIn n ids) : e.Reaches t id := by
  induction n generalizing ids with
  | zero => exact hids id h
  | succ n ih =>
    refine ih (fun i hi => ?_) h
    rcases Table.mem_grow.mp hi with hi | ⟨i', hi', hcall⟩
    · exact hids i hi
    · exact (hids i' hi').callee hcall

/-- **The closure of what a program names is what it reaches.** -/
theorem reaches_iff_mem_reach : e.Reaches t id ↔ id ∈ t.reach e.primitives := by
  constructor
  · intro h
    exact h.within (t.reach_closed e.primitives) fun i hi => Table.subset_reach hi
  · intro h
    exact reaches_of_mem_reachIn (fun i hi => .of_mem_primitives hi) h

theorem reachesFix_iff : e.reachesFix t = true ↔ ∃ id, e.Reaches t id ∧ t.builtin? id = some .fix := by
  simp only [reachesFix, List.any_eq_true, beq_iff_eq, reaches_iff_mem_reach]

end Term

/-! ## Search -/

namespace Table

/-- The body at a position, if a learned primitive is there. -/
def body? (t : Table) (id : PrimId) : Option Term := (t.get? id).bind Primitive.body?

/-- Enters the body at a position unless it was visited before. -/
def enter (t : Table) (search : List PrimId → Term → Option (List PrimId)) (visited : List PrimId)
    (id : PrimId) : Option (List PrimId) :=
  match t.body? id with
  | none => some visited
  | some body => if id ∈ visited then some visited else search (id :: visited) body

/-- Searches a term for the fixpoint operation and then, from the left, the bodies that it names. What was
visited is shared by all of them; nothing is returned as soon as the operation is found. -/
def search (t : Table) : (levels : Nat) → List PrimId → Term → Option (List PrimId)
  | 0, visited, _ => some visited
  | levels + 1, visited, e =>
    if e.primitives.any (fun id => t.builtin? id == some .fix) then none
    else e.primitives.foldlM (t.enter (t.search levels)) visited

end Table

/-- Whether the search finds the fixpoint operation. -/
def Term.findsFix (t : Table) (e : Term) : Bool := (t.search (t.size + 1) [] e).isNone

namespace Table

variable {t : Table} {e : Term} {id : PrimId} {visited visited' visited'' ids : List PrimId}
  {levels : Nat}

theorem body?_eq_some {body : Term} :
    t.body? id = some body ↔ ∃ p, t.get? id = some p ∧ p.rule = .learned body := by
  rw [body?]
  cases hget : t.get? id with
  | none => simp
  | some p => cases hrule : p.rule <;> simp [Primitive.body?, hrule]

theorem callees_of_body? {body : Term} (h : t.body? id = some body) : t.callees id = body.primitives := by
  rw [body?] at h
  rw [callees, h]

theorem callees_of_body?_none (h : t.body? id = none) : t.callees id = [] := by
  rw [body?] at h
  rw [callees, h]

/-! ### What is found -/

theorem exists_of_foldlM_enter {search : List PrimId → Term → Option (List PrimId)}
    (h : ids.foldlM (t.enter search) visited = none) :
    ∃ id ∈ ids, ∃ body visited', t.body? id = some body ∧ search (id :: visited') body = none := by
  induction ids generalizing visited with
  | nil => cases h
  | cons i ids ih =>
    rw [List.foldlM_cons] at h
    cases hentered : t.enter search visited i with
    | none =>
      rw [enter] at hentered
      split at hentered
      · cases hentered
      · rename_i body hbody
        split at hentered
        · cases hentered
        · exact ⟨i, List.mem_cons_self, body, visited, hbody, hentered⟩
    | some entered =>
      rw [hentered] at h
      obtain ⟨id, hid, hfound⟩ := ih h
      exact ⟨id, List.mem_cons_of_mem _ hid, hfound⟩

theorem reaches_of_search (h : t.search levels visited e = none) :
    ∃ id, e.Reaches t id ∧ t.builtin? id = some .fix := by
  induction levels generalizing visited e with
  | zero => cases h
  | succ levels ih =>
    rw [search] at h
    split at h
    · rename_i hnamed
      simp only [List.any_eq_true, beq_iff_eq] at hnamed
      obtain ⟨id, hid, hfix⟩ := hnamed
      exact ⟨id, .of_mem_primitives hid, hfix⟩
    · obtain ⟨i, hi, body, visited', hbody, hsearch⟩ := exists_of_foldlM_enter h
      obtain ⟨id, hid, hfix⟩ := ih hsearch
      obtain ⟨p, hget, hrule⟩ := body?_eq_some.mp hbody
      exact ⟨id, .body (.of_mem_primitives hi) hget hrule hid, hfix⟩

/-! ### What is not found -/

/-- Nothing is left to search at a position: it is not the fixpoint operation, and if its body names
anything, that body was visited. -/
structure Cleared (t : Table) (visited : List PrimId) (id : PrimId) : Prop where
  noFix : t.builtin? id ≠ some .fix
  entered : ∀ j ∈ t.callees id, id ∈ visited

/-- A search goes on from some visited positions to further ones, whose bodies it clears. -/
structure Sweeps (t : Table) (visited visited' : List PrimId) : Prop where
  keeps : visited ⊆ visited'
  clears : ∀ id ∈ visited', id ∈ visited ∨ ∀ j ∈ t.callees id, t.Cleared visited' j

theorem Cleared.mono (h : t.Cleared visited id) (hkeeps : visited ⊆ visited') : t.Cleared visited' id :=
  ⟨h.noFix, fun j hj => hkeeps (h.entered j hj)⟩

theorem Sweeps.refl (visited : List PrimId) : t.Sweeps visited visited :=
  ⟨fun _ h => h, fun _ h => .inl h⟩

theorem Sweeps.trans (h : t.Sweeps visited visited') (h' : t.Sweeps visited' visited'') :
    t.Sweeps visited visited'' where
  keeps := List.Subset.trans h.keeps h'.keeps
  clears id hid := by
    rcases h'.clears id hid with hid' | hcleared
    · exact (h.clears id hid').imp_right fun hcleared j hj => (hcleared j hj).mono h'.keeps
    · exact .inr hcleared

/-- Whether a search, with a number of levels, clears everything that it comes upon. Every position with a
primitive that is visited saves a level. -/
def Thorough (t : Table) (levels : Nat) (search : List PrimId → Term → Option (List PrimId)) : Prop :=
  ∀ visited visited' e, t.size < (t.known visited).card + levels → search visited e = some visited' →
    t.Sweeps visited visited' ∧ ∀ id ∈ e.primitives, t.Cleared visited' id

section thorough

variable {search : List PrimId → Term → Option (List PrimId)} (hsearch : t.Thorough levels search)
include hsearch

theorem Thorough.enter (hlevels : t.size < (t.known visited).card + (levels + 1))
    (hfix : t.builtin? id ≠ some .fix) (h : t.enter search visited id = some visited') :
    t.Sweeps visited visited' ∧ t.Cleared visited' id := by
  rw [Table.enter] at h
  cases hbody : t.body? id with
  | none =>
    rw [hbody] at h
    obtain rfl := Option.some.inj h
    have hnone := callees_of_body?_none hbody
    exact ⟨.refl visited, hfix, fun j hj => nomatch hnone ▸ hj⟩
  | some body =>
    simp only [hbody] at h
    split at h
    · rename_i hmem
      obtain rfl := Option.some.inj h
      exact ⟨.refl visited, hfix, fun _ _ => hmem⟩
    · rename_i hnew
      obtain ⟨p, hget, -⟩ := body?_eq_some.mp hbody
      have hcard := card_known_cons (lt_size_of_get? hget) hnew
      obtain ⟨hsweeps, hcleared⟩ := hsearch _ _ _ (by omega) h
      obtain ⟨hid, hkeeps⟩ := List.cons_subset.mp hsweeps.keeps
      refine ⟨⟨hkeeps, fun i hi => ?_⟩, hfix, fun _ _ => hid⟩
      -- the position itself was entered here, all others were visited before or further down
      rcases hsweeps.clears i hi with hmem | hcallees
      · rcases List.mem_cons.mp hmem with rfl | hmem
        · exact .inr (callees_of_body? hbody ▸ hcleared)
        · exact .inl hmem
      · exact .inr hcallees

theorem Thorough.foldlM (hlevels : t.size < (t.known visited).card + (levels + 1))
    (hfix : ∀ id ∈ ids, t.builtin? id ≠ some .fix)
    (h : ids.foldlM (t.enter search) visited = some visited') :
    t.Sweeps visited visited' ∧ ∀ id ∈ ids, t.Cleared visited' id := by
  induction ids generalizing visited with
  | nil =>
    obtain rfl := Option.some.inj h
    exact ⟨.refl visited, fun _ hid => nomatch hid⟩
  | cons id ids ih =>
    rw [List.foldlM_cons] at h
    obtain ⟨entered, henter, hrest⟩ := Option.bind_eq_some_iff.mp h
    obtain ⟨hid, hids⟩ := List.forall_mem_cons.mp hfix
    obtain ⟨hfirst, hcleared⟩ := hsearch.enter hlevels hid henter
    have hcard := Finset.card_le_card (t.known_mono hfirst.keeps)
    obtain ⟨hsweeps, hothers⟩ := ih (by omega) hids hrest
    exact ⟨hfirst.trans hsweeps,
      List.forall_mem_cons.mpr ⟨hcleared.mono hsweeps.keeps, hothers⟩⟩

end thorough

theorem thorough_search (t : Table) (levels : Nat) : t.Thorough levels (t.search levels) := by
  induction levels with
  | zero =>
    intro visited _ _ hlevels
    have hle := t.card_known_le visited
    omega
  | succ levels ih =>
    intro visited visited' e hlevels h
    rw [search] at h
    split at h
    · cases h
    · rename_i hnamed
      have hfix : ∀ id ∈ e.primitives, t.builtin? id ≠ some .fix := by simpa using hnamed
      exact ih.foldlM hlevels hfix h

theorem noFix_of_search (h : t.search (t.size + 1) [] e = some visited) (hid : e.Reaches t id) :
    t.builtin? id ≠ some .fix := by
  obtain ⟨hsweeps, hcleared⟩ := t.thorough_search (t.size + 1) [] visited e (by omega) h
  have hclosed : ∀ i, t.Cleared visited i → ∀ j ∈ t.callees i, t.Cleared visited j := by
    intro i hi j hj
    exact (hsweeps.clears i (hi.entered j hj)).resolve_left List.not_mem_nil j hj
  exact (hid.within hclosed hcleared).noFix

end Table

namespace Term

variable {t : Table} {e : Term}

theorem findsFix_iff : e.findsFix t = true ↔ ∃ id, e.Reaches t id ∧ t.builtin? id = some .fix := by
  rw [findsFix, Option.isNone_iff_eq_none]
  constructor
  · exact Table.reaches_of_search
  · rintro ⟨id, hid, hfix⟩
    by_contra hends
    obtain ⟨visited, hsearch⟩ := Option.ne_none_iff_exists'.mp hends
    exact Table.noFix_of_search hsearch hid hfix

/-- **A program is found to reach the fixpoint operation exactly when it does**, by the closure and by the
search alike. A program that does not reach it is never cut off in an iteration, whatever its limits are,
on inputs that hold no functions. -/
theorem reachesFix_exact (t : Table) (e : Term) :
    (e.reachesFix t = true ↔
      ∃ id p, e.Reaches t id ∧ t.get? id = some p ∧ p.rule = .builtin .fix) ∧
    e.findsFix t = e.reachesFix t ∧
    (e.reachesFix t = false → ∀ limits inputs, (∀ v ∈ inputs, ∀ f, v ≠ .func f) →
      ∀ cap, (t.machine limits).eval e inputs ≠ .error (.fixpointDiverged cap)) := by
  refine ⟨?_, ?_, ?_⟩
  · rw [reachesFix_iff]
    simp only [Table.builtin?_eq_some, exists_and_left]
  · rw [Bool.eq_iff_iff, findsFix_iff, reachesFix_iff]
  · intro hfix limits inputs hinputs
    have hwithin : Value.AllWithin (· ∈ t.reach e.primitives) inputs := by
      intro v hv
      cases v with
      | func f => exact absurd rfl (hinputs _ hv f)
      | _ => simp
    exact Machine.eval_ne_fixpointDiverged hfix hwithin

/-- Two bodies that call each other, one that iterates, and one that maps a composition of functions over a
list, the outer of which iterates. -/
def cyclic : Table :=
  ⟨#[.ofBuiltin 0 .identity, .ofBuiltin 1 .fix, .ofBuiltin 2 .map,
    .ofBody 3 "ping" ⟨[.int], .int⟩ (.apply 4 [.var 0]) 1,
    .ofBody 4 "pong" ⟨[.int], .int⟩ (.apply 3 [.var 0]) 1,
    .ofBody 5 "settle" ⟨[.int], .int⟩ (.apply 1 [.lit (.func (.primitive 0)), .var 0]) 1,
    .ofBody 6 "settleAll" ⟨[.list], .list⟩
      (.apply 2 [.lit (.func (.compose (.primitive 5) (.primitive 3))), .var 0]) 2]⟩

/-- The cycle alone does not iterate, its calls nest too deep; the composition reaches the operation. -/
theorem reachesFix_exact_cyclic :
    (Term.findsFix cyclic (.apply 3 [.var 0]) = false ∧
      (cyclic.machine .standard).eval (.apply 3 [.var 0]) [.int 1] = .error (.callDepthExceeded 64) ∧
      ∀ limits cap,
        (cyclic.machine limits).eval (.apply 3 [.var 0]) [.int 1] ≠ .error (.fixpointDiverged cap)) ∧
    Term.findsFix cyclic (.apply 6 [.var 0]) = true ∧
      ∃ id p, (Term.apply 6 [.var 0]).Reaches cyclic id ∧ cyclic.get? id = some p ∧
        p.rule = .builtin .fix := by
  have hcycle : Term.reachesFix cyclic (.apply 3 [.var 0]) = false := by decide +kernel
  have hmapped : Term.reachesFix cyclic (.apply 6 [.var 0]) = true := by decide +kernel
  obtain ⟨-, hsearch, hends⟩ := reachesFix_exact cyclic (.apply 3 [.var 0])
  obtain ⟨hreaches, hsearch', -⟩ := reachesFix_exact cyclic (.apply 6 [.var 0])
  refine ⟨⟨hsearch.trans hcycle, by decide +kernel, fun limits => ?_⟩, hsearch'.trans hmapped,
    hreaches.mp hmapped⟩
  exact hends hcycle limits [.int 1] (by simp)

end Term

end Exemplar
