import Exemplar.Proofs.Catalog.History

/-!
# Programs outlive the growth of a catalog

**Whatever is offered to a catalog, the programs that it had before keep their type, their size, their
text and what they evaluate to**, value or fault (`offerAll_conserves`).

A program with a type names primitives of the catalog only (`Term.lt_size_of_infer`), and so do its
arguments (`Value.within_of_hasTy`). The bodies of these primitives stay among them, as every body was
checked when it was admitted (`Grown.proper`), and so evaluation never comes to a primitive that was
added later (`Table.Extends.evalAt_eq`).
-/

namespace Exemplar.Catalog

variable {c : Catalog}

/-- **The meaning of a program is conserved.** -/
theorem offerAll_conserves (hc : c.Grown) (os : List Offer) {inputs : List Ty} {e : Term} {ty : Ty}
    (he : e.infer c.table inputs = .ok ty) (limits : Limits) {args : List Value}
    (hargs : List.Forall₂ (Value.HasTy c.table) args inputs) :
    let c' := c.offerAll os
    e.infer c'.table inputs = .ok ty ∧ e.size c'.table = e.size c.table ∧
      e.render c'.table = e.render c.table ∧
      (c'.table.machine limits).eval e args = (c.table.machine limits).eval e args := by
  have hextends := (c.grows_offerAll os).extends
  have hscope := Term.lt_size_of_infer he
  have hwithin : Value.AllWithin (· < c.table.size) args :=
    ((List.forall₂_and_left _ _).mp (hargs.imp fun _ _ h => ⟨Value.within_of_hasTy h, h⟩)).1
  exact ⟨Term.infer_extends hextends he, hextends.size_eq hscope, hextends.render_eq hscope,
    hextends.evalAt_eq hc.proper.wellTyped.sealed _ hwithin hscope⟩

/-- A list is mapped by a learned function that is handed in, before and after more is learned. -/
theorem offerAll_conserves_map :
    let c := (ofBuiltins [.add, .map] 64 .standard).offerAll
      [⟨"double", ⟨[.int], .int⟩, .apply 0 [.var 0, .var 0], 1⟩]
    let os : List Offer := [⟨"double", ⟨[], .int⟩, .lit (.int 2), 1⟩,
      ⟨"fourfold", ⟨[.int], .int⟩, .apply 2 [.apply 2 [.var 0]], 1⟩]
    let c' := c.offerAll os
    let e : Term := .apply 1 [.var 0, .var 1]
    let args : List Value := [.func (.primitive 2), .list [1, 2]]
    c.Grown ∧ c'.names = ["add", "map", "double", "fourfold"] ∧
      e.infer c.table [Builtin.intUnary, .list] = .ok .list ∧
      List.Forall₂ (Value.HasTy c.table) args [Builtin.intUnary, .list] ∧
      e.infer c'.table [Builtin.intUnary, .list] = .ok .list ∧ e.size c'.table = e.size c.table ∧
      e.render c'.table = e.render c.table ∧
      (c'.table.machine .standard).eval e args = (c.table.machine .standard).eval e args ∧
      (c.table.machine .standard).eval e args = .ok (.list [2, 4]) := by
  intro c os c' e args
  have hc : c.Grown := (grown_ofBuiltins _ _ _).offerAll _
  have he : e.infer c.table [Builtin.intUnary, .list] = .ok .list := by decide +kernel
  have hargs : List.Forall₂ (Value.HasTy c.table) args [Builtin.intUnary, .list] :=
    .cons (by decide +kernel) (.cons (by decide +kernel) .nil)
  obtain ⟨hty, hsize, htext, heval⟩ := offerAll_conserves hc os he .standard hargs
  exact ⟨hc, by decide +kernel, he, hargs, hty, hsize, htext, heval, by decide +kernel⟩

end Exemplar.Catalog
