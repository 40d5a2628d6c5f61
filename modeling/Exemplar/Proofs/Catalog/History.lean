import Exemplar.Proofs.Catalog
import Mathlib.Data.List.Nodup

/-!
# Histories of a catalog

Whatever is offered to a catalog of distinct builtin operations, in any order and with any outcome, the
catalog stays coherent, and every further offer either changes nothing or adds one primitive at the end
(`offerAll_coherent`).

One offer keeps each part of coherence: positions (`Table.Indexed.push`), names, which are looked up
before anything is added (`nodup_names_append`), and strata (`Table.Stratified.push`). Bodies that have a
type over earlier primitives name only these, in applications and in function literals of any nesting
(`Term.lt_size_of_infer`), so calls lead downwards and never come back (`Table.Stratified.acyclic`).
-/

namespace Exemplar

/-! ## Strata -/

namespace Table

variable {t : Table} {id : PrimId} {p : Primitive}

/-- The primitives registered before a position. -/
def before (t : Table) (id : PrimId) : Table := ⟨(t.toList.take id).toArray⟩

/-- Every body has its declared type over the primitives registered before its own. -/
def Stratified (t : Table) : Prop :=
  ∀ id p body, t.get? id = some p → p.rule = .learned body →
    body.infer (t.before id) p.signature.params = .ok p.signature.ret

/-- The body at the first position names the second one. -/
def Calls (t : Table) (id j : PrimId) : Prop := j ∈ t.callees id

theorem size_before_le (t : Table) (id : PrimId) : (t.before id).size ≤ id := by
  simp [before, size]

theorem before_push (p : Primitive) (h : id ≤ t.size) : (t.push p).before id = t.before id := by
  have hlength : id ≤ t.toList.length := h
  rw [before, toList_push, List.take_append_of_le_length hlength, before]

theorem before_size (t : Table) : t.before t.size = t := by
  have hlength : t.toList.length = t.size := rfl
  rw [before, ← hlength, List.take_length]
  rfl

theorem Stratified.push (ht : t.Stratified)
    (hp : ∀ body, p.rule = .learned body →
      body.infer t p.signature.params = .ok p.signature.ret) : (t.push p).Stratified := by
  intro id q body hget hrule
  have hlt : id < t.size + 1 := t.size_push p ▸ lt_size_of_get? hget
  rw [before_push p (Nat.le_of_lt_succ hlt)]
  rcases Nat.lt_succ_iff_lt_or_eq.mp hlt with hold | rfl
  · rw [get?_push_of_lt p hold] at hget
    exact ht id q body hget hrule
  · rw [get?_push_size] at hget
    obtain rfl := Option.some.inj hget
    rw [before_size]
    exact hp body hrule

theorem Stratified.foldl_pushBuiltin (ht : t.Stratified) (bs : List Builtin) :
    (bs.foldl pushBuiltin t).Stratified := by
  induction bs generalizing t with
  | nil => exact ht
  | cons b bs ih => exact ih (ht.push nofun)

theorem Stratified.lt_of_calls (ht : t.Stratified) {j : PrimId} (h : t.Calls id j) : j < id := by
  obtain ⟨p, body, hget, hrule, hmem⟩ := mem_callees.mp h
  have hbody := ht id p body hget hrule
  exact (Term.lt_size_of_infer hbody j hmem).trans_le (t.size_before_le id)

theorem Stratified.lt_of_transGen_calls (ht : t.Stratified) {j : PrimId}
    (h : Relation.TransGen t.Calls id j) : j < id := by
  induction h with
  | single h => exact ht.lt_of_calls h
  | tail _ h ih => exact (ht.lt_of_calls h).trans ih

theorem Stratified.acyclic (ht : t.Stratified) (id : PrimId) : ¬ Relation.TransGen t.Calls id id :=
  fun h => Nat.lt_irrefl id (ht.lt_of_transGen_calls h)

end Table

/-! ## Names -/

theorem Builtin.mem_all (b : Builtin) : b ∈ Builtin.all := by
  cases b <;> decide

theorem Builtin.name_injective : Function.Injective Builtin.name := by
  have hnodup : (Builtin.all.map Builtin.name).Nodup := by decide +kernel
  exact fun a b h => List.inj_on_of_nodup_map hnodup a.mem_all b.mem_all h

theorem Table.names_foldl_pushBuiltin (t : Table) (bs : List Builtin) :
    (bs.foldl pushBuiltin t).toList.map Primitive.name =
      t.toList.map Primitive.name ++ bs.map Builtin.name := by
  induction bs generalizing t with
  | nil => exact (List.append_nil _).symm
  | cons b bs ih =>
    rw [List.foldl_cons, ih, pushBuiltin, toList_push, List.map_append, List.append_assoc]
    rfl

namespace Catalog

variable {c : Catalog} {name : String} {signature : Signature} {body : Term} {cost : Nat}

theorem names_append : (c.append name signature body cost).names = c.names ++ [name] := by
  rw [names, append, Table.toList_push, List.map_append]
  rfl

theorem nodup_names_append (hc : c.names.Nodup) (hfree : c.table.find? name = none) :
    (c.append name signature body cost).names.Nodup := by
  have hnew : name ∉ c.names := find?_eq_none_iff.mp hfree
  rw [names_append, ← List.concat_eq_append]
  exact hc.concat hnew

/-! ## Offers -/

/-- What is offered to a catalog. -/
structure Offer where
  name : String
  signature : Signature
  body : Term
  cost : Nat

/-- The answer to an offer, and the catalog after it. -/
def offer (c : Catalog) (o : Offer) : Except Error Admission × Catalog :=
  match c.register o.name o.signature o.body o.cost with
  | .ok (a, c') => (.ok a, c')
  | .error e => (.error e, c)

/-- The catalog after some offers, the first one first. -/
def offerAll (c : Catalog) (os : List Offer) : Catalog := os.foldl (fun c o => (c.offer o).2) c

theorem offer_cases (c : Catalog) (o : Offer) :
    (∃ e, c.offer o = (.error e, c)) ∨
    (∃ id, c.offer o = (.ok (.duplicate id), c)) ∨
    (c.table.find? o.name = none ∧
      o.body.infer c.table o.signature.params = .ok o.signature.ret ∧
      c.offer o = (.ok (.admitted c.size), c.append o.name o.signature o.body o.cost)) := by
  rw [offer]
  cases h : c.register o.name o.signature o.body o.cost with
  | error e => exact .inl ⟨e, rfl⟩
  | ok r =>
    obtain ⟨a, c'⟩ := r
    obtain ⟨⟨hfree, hinfer⟩, ⟨id, -, rfl, rfl⟩ | ⟨-, rfl, rfl⟩⟩ := register_eq_ok.mp h
    · exact .inr (.inl ⟨id, rfl⟩)
    · exact .inr (.inr ⟨hfree, hinfer, rfl⟩)

theorem grows_offer (c : Catalog) (o : Offer) : c.Grows (c.offer o).2 := by
  rw [offer]
  split
  · rename_i a c' h
    exact .single ⟨_, _, _, _, a, h⟩
  · exact .refl

theorem grows_offerAll (c : Catalog) (os : List Offer) : c.Grows (c.offerAll os) := by
  induction os generalizing c with
  | nil => exact .refl
  | cons o os ih => exact (c.grows_offer o).trans (ih _)

theorem Grown.offerAll (hc : c.Grown) (os : List Offer) : (c.offerAll os).Grown :=
  hc.grows (c.grows_offerAll os)

/-! ## Coherence -/

/-- Every primitive carries its position and a name of its own, and bodies are made of earlier
primitives, so that none comes back to itself by calls. -/
structure Coherent (c : Catalog) : Prop where
  indexed : c.table.Indexed
  names : c.names.Nodup
  stratified : c.table.Stratified
  acyclic : ∀ id, ¬ Relation.TransGen c.table.Calls id id

theorem coherent_ofBuiltins {bs : List Builtin} (hbs : bs.Nodup) (probeLimit : Nat)
    (limits : Limits) : (ofBuiltins bs probeLimit limits).Coherent := by
  have hempty : Table.empty.Stratified := fun _ _ _ hget => nomatch hget
  have hstratified : (Table.ofBuiltins bs).Stratified := hempty.foldl_pushBuiltin bs
  have hnames : (Table.ofBuiltins bs).toList.map Primitive.name = bs.map Builtin.name :=
    Table.names_foldl_pushBuiltin .empty bs
  refine ⟨(grown_ofBuiltins bs probeLimit limits).proper.indexed, ?_, hstratified,
    hstratified.acyclic⟩
  rw [Catalog.names, ofBuiltins, hnames]
  exact hbs.map Builtin.name_injective

theorem Coherent.append (hc : c.Coherent) (hfree : c.table.find? name = none)
    (hinfer : body.infer c.table signature.params = .ok signature.ret) :
    (c.append name signature body cost).Coherent := by
  have hstratified : (c.append name signature body cost).table.Stratified :=
    hc.stratified.push fun b hb => by
      obtain rfl := Rule.learned.inj hb
      exact hinfer
  exact ⟨hc.indexed.push rfl, nodup_names_append hc.names hfree, hstratified, hstratified.acyclic⟩

theorem Coherent.offer (hc : c.Coherent) (o : Offer) : (c.offer o).2.Coherent := by
  obtain ⟨e, h⟩ | ⟨id, h⟩ | ⟨hfree, hinfer, h⟩ := c.offer_cases o <;> rw [h]
  · exact hc
  · exact hc
  · exact hc.append hfree hinfer

theorem Coherent.offerAll (hc : c.Coherent) (os : List Offer) : (c.offerAll os).Coherent := by
  induction os generalizing c with
  | nil => exact hc
  | cons o os ih => exact ih (hc.offer o)

/-- What the answer to an offer says of the catalog after it: what was there is there in the same
order; nothing else is, unless the offer was admitted, and then one primitive follows. -/
structure Answered (c : Catalog) (o : Offer) (answer : Except Error Admission) (c' : Catalog) :
    Prop where
  kept : c.table.toList <+: c'.table.toList
  refused : ∀ e, answer = .error e → c' = c
  duplicate : ∀ id, answer = .ok (.duplicate id) → c' = c
  admitted : ∀ id, answer = .ok (.admitted id) →
    c'.table.toList =
      c.table.toList ++ [⟨id, o.name, o.signature, .learned o.body, max o.cost 1⟩] ∧
    c' = { c with table := c'.table }

theorem answered_offer (c : Catalog) (o : Offer) : c.Answered o (c.offer o).1 (c.offer o).2 := by
  obtain ⟨e, h⟩ | ⟨id, h⟩ | ⟨-, -, h⟩ := c.offer_cases o <;> rw [h]
  · exact ⟨List.prefix_rfl, fun _ _ => rfl, nofun, nofun⟩
  · exact ⟨List.prefix_rfl, nofun, fun _ _ => rfl, nofun⟩
  · have hlast : (c.append o.name o.signature o.body o.cost).table.toList =
        c.table.toList ++ [⟨c.size, o.name, o.signature, .learned o.body, max o.cost 1⟩] :=
      c.table.toList_push _
    refine ⟨hlast ▸ List.prefix_append _ _, nofun, nofun, ?_⟩
    rintro id ⟨⟩
    exact ⟨hlast, rfl⟩

/-- **Whatever was offered, a catalog is coherent, and the next offer changes nothing or adds one
primitive at the end.** -/
theorem offerAll_coherent {bs : List Builtin} (hbs : bs.Nodup) (probeLimit : Nat) (limits : Limits)
    (os : List Offer) :
    let c := (ofBuiltins bs probeLimit limits).offerAll os
    c.Coherent ∧ ∀ o, c.Answered o (c.offer o).1 (c.offer o).2 :=
  ⟨(coherent_ofBuiltins hbs probeLimit limits).offerAll os, fun o => answered_offer _ o⟩

/-- Of these offers the first is admitted, the second is a duplicate, the third has no type, and the last
is admitted; it names the first one in a function literal. -/
theorem offerAll_coherent_doubles :
    let os : List Offer := [
      ⟨"double", ⟨[.int], .int⟩, .apply 0 [.var 0, .var 0], 1⟩,
      ⟨"twice", ⟨[.int], .int⟩, .apply 0 [.var 0, .var 0], 3⟩,
      ⟨"broken", ⟨[.int], .int⟩, .apply 9 [.var 0], 1⟩,
      ⟨"doubles", ⟨[.list], .list⟩, .apply 1 [.lit (.func (.primitive 2)), .var 0], 0⟩]
    let c := (ofBuiltins [.add, .map] 64 .standard).offerAll os
    [Builtin.add, Builtin.map].Nodup ∧ c.names = ["add", "map", "double", "doubles"] ∧
      c.Coherent ∧ ∀ o, c.Answered o (c.offer o).1 (c.offer o).2 := by
  intro os c
  have hbs : [Builtin.add, Builtin.map].Nodup := by decide
  have hnames : c.names = ["add", "map", "double", "doubles"] := by decide +kernel
  obtain ⟨hcoherent, hanswered⟩ := offerAll_coherent hbs 64 .standard os
  exact ⟨hbs, hnames, hcoherent, hanswered⟩

end Catalog

end Exemplar
