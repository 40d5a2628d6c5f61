import Exemplar.Catalog
import Exemplar.Proofs.Growth
import Exemplar.Proofs.Probe
import Mathlib.Logic.Relation

/-!
# Catalogs that grow

What offering a capability comes to (`register_eq_ok`, `register_eq_error`), and what holds of every
catalog that grew from builtin operations by such offers: its primitives carry their positions and are
well typed (`Grown.proper`), and each weighs at least one (`Grown.costed`).
-/

namespace Exemplar

namespace Catalog

variable {c c' : Catalog} {name : String} {signature : Signature} {body : Term} {cost : Nat}
  {a : Admission}

/-! ## One offer -/

theorem find?_eq_none_iff : c.table.find? name = none ↔ name ∉ c.names := by
  simp [Table.find?, names]

theorem check_eq_ok : c.check name signature body = .ok () ↔
    c.table.find? name = none ∧ body.infer c.table signature.params = .ok signature.ret := by
  rw [check]
  cases hfind : c.table.find? name with
  | some p =>
    constructor
    · intro h
      cases h
    · rintro ⟨h, -⟩
      cases h
  | none =>
    cases hinfer : body.infer c.table signature.params with
    | error e =>
      constructor
      · intro h
        cases h
      · rintro ⟨-, h⟩
        cases h
    | ok ty =>
      by_cases hty : ty = signature.ret
      · simp [Error.lift, hty, bind, Except.bind, pure, Except.pure]
      · simp [Error.lift, hty, bind, Except.bind, throw, throwThe, MonadExceptOf.throw]

/-- A capability that is accepted has a free name and the declared type. It is found to be there
already, or it is the last primitive afterwards. -/
theorem register_eq_ok : c.register name signature body cost = .ok (a, c') ↔
    (c.table.find? name = none ∧ body.infer c.table signature.params = .ok signature.ret) ∧
      ((∃ existing, c.findEquivalent? signature body = some existing ∧
          a = .duplicate existing ∧ c' = c) ∨
        (c.findEquivalent? signature body = none ∧ a = .admitted c.size ∧
          c' = c.append name signature body cost)) := by
  rw [register, bind_eq_ok, ← check_eq_ok]
  constructor
  · rintro ⟨⟨⟩, hcheck, h⟩
    refine ⟨hcheck, ?_⟩
    split at h
    · rename_i existing hfind
      obtain ⟨rfl, rfl⟩ := Prod.mk.inj (pure_eq_ok.mp h)
      exact .inl ⟨existing, hfind, rfl, rfl⟩
    · rename_i hfind
      obtain ⟨rfl, rfl⟩ := Prod.mk.inj (pure_eq_ok.mp h)
      exact .inr ⟨hfind, rfl, rfl⟩
  · rintro ⟨hcheck, ⟨existing, hfind, rfl, rfl⟩ | ⟨hfind, rfl, rfl⟩⟩
    · exact ⟨(), hcheck, by rw [hfind]; rfl⟩
    · exact ⟨(), hcheck, by rw [hfind]; rfl⟩

theorem register_eq_admitted {id : PrimId} :
    c.register name signature body cost = .ok (.admitted id, c') ↔
      (c.table.find? name = none ∧ body.infer c.table signature.params = .ok signature.ret) ∧
        c.findEquivalent? signature body = none ∧ id = c.size ∧
          c' = c.append name signature body cost := by
  rw [register_eq_ok]
  simp

/-- Why a body is refused for its type. -/
inductive Mistyped (c : Catalog) (name : String) (signature : Signature) (body : Term) : Error → Prop
  | illTyped {cause : TypeError} (h : body.infer c.table signature.params = .error cause) :
    Mistyped c name signature body (.illTyped cause)
  | bodyType {actual : Ty} (h : body.infer c.table signature.params = .ok actual)
    (hne : actual ≠ signature.ret) :
    Mistyped c name signature body (.bodyType name actual signature.ret)

theorem Mistyped.kind {e : Error} (h : c.Mistyped name signature body e) :
    e.kind = .typeMismatch ∨ e.kind = .unknownPrimitive := by
  cases h with
  | @illTyped cause _ =>
    cases cause with
    | unknownPrimitive _ => exact .inr rfl
    | _ => exact .inl rfl
  | bodyType _ _ => exact .inl rfl

theorem check_eq_error {e : Error} : c.check name signature body = .error e ↔
    ((c.table.find? name).isSome = true ∧ e = .duplicateName name) ∨
      (c.table.find? name = none ∧ c.Mistyped name signature body e) := by
  constructor
  · intro h
    rw [check] at h
    cases hfind : c.table.find? name with
    | some p =>
      rw [hfind] at h
      cases h
      exact .inl ⟨rfl, rfl⟩
    | none =>
      rw [hfind] at h
      refine .inr ⟨rfl, ?_⟩
      cases hinfer : body.infer c.table signature.params with
      | error cause =>
        rw [hinfer] at h
        cases h
        exact .illTyped hinfer
      | ok actual =>
        by_cases hty : actual = signature.ret
        · simp [hinfer, Error.lift, hty, bind, Except.bind, pure, Except.pure] at h
        · simp only [hinfer, Error.lift, bind, Except.bind, if_neg hty] at h
          cases h
          exact .bodyType hinfer hty
  · rintro (⟨htaken, rfl⟩ | ⟨hfree, hmistyped⟩)
    · rw [check, if_pos htaken]
      rfl
    · rw [check, hfree]
      cases hmistyped with
      | illTyped h =>
        rw [h]
        rfl
      | bodyType h hne =>
        simp [h, hne, Error.lift, bind, Except.bind, throw, throwThe, MonadExceptOf.throw]

theorem register_eq_error {e : Error} : c.register name signature body cost = .error e ↔
    ((c.table.find? name).isSome = true ∧ e = .duplicateName name) ∨
      (c.table.find? name = none ∧ c.Mistyped name signature body e) := by
  rw [← check_eq_error, register]
  cases c.check name signature body with
  | error cause => simp [bind, Except.bind]
  | ok u => cases c.findEquivalent? signature body <;> simp [bind, Except.bind, pure, Except.pure]

/-! ## All offers -/

/-- An offer that is not refused leads from the first catalog to the second. -/
def Step (c c' : Catalog) : Prop :=
  ∃ name signature body cost a, c.register name signature body cost = .ok (a, c')

/-- Some offers lead from the first catalog to the second. -/
def Grows : Catalog → Catalog → Prop := Relation.ReflTransGen Step

/-- The catalogs that grow from builtin operations. -/
def Grown (c : Catalog) : Prop := ∃ bs probeLimit limits, (ofBuiltins bs probeLimit limits).Grows c

theorem grown_ofBuiltins (bs : List Builtin) (probeLimit : Nat) (limits : Limits) :
    (ofBuiltins bs probeLimit limits).Grown := ⟨bs, probeLimit, limits, Relation.ReflTransGen.refl⟩

theorem Grown.grows (hc : c.Grown) (h : c.Grows c') : c'.Grown := by
  obtain ⟨bs, probeLimit, limits, hgrows⟩ := hc
  exact ⟨bs, probeLimit, limits, hgrows.trans h⟩

theorem Grown.register (hc : c.Grown)
    (h : c.register name signature body cost = .ok (a, c')) : c'.Grown :=
  hc.grows (.single ⟨_, _, _, _, _, h⟩)

/-- Primitives carry their positions and return what they declare. -/
structure Proper (c : Catalog) : Prop where
  indexed : c.table.Indexed
  wellTyped : c.table.WellTyped

theorem Step.extends (h : c.Step c') : c.table.Extends c'.table := by
  obtain ⟨_, _, _, _, _, h⟩ := h
  obtain ⟨-, ⟨_, -, -, rfl⟩ | ⟨-, -, rfl⟩⟩ := register_eq_ok.mp h
  · exact fun _ _ hget => hget
  · exact c.table.extends_push _

theorem Grows.extends (h : c.Grows c') : c.table.Extends c'.table := by
  induction h with
  | refl => exact fun _ _ hget => hget
  | tail _ hstep ih => exact fun id p hget => hstep.extends id p (ih id p hget)

theorem Proper.step (hc : c.Proper) (h : c.Step c') : c'.Proper := by
  obtain ⟨_, _, _, _, _, h⟩ := h
  obtain ⟨⟨-, hinfer⟩, ⟨_, -, -, rfl⟩ | ⟨-, -, rfl⟩⟩ := register_eq_ok.mp h
  · exact hc
  · refine ⟨hc.indexed.push rfl, hc.wellTyped.push ?_⟩
    exact Term.infer_extends (c.table.extends_push _) hinfer

theorem Proper.grows (hc : c.Proper) (h : c.Grows c') : c'.Proper := by
  induction h with
  | refl => exact hc
  | tail _ hstep ih => exact ih.step hstep

theorem proper_foldl_pushBuiltin {t : Table} (hi : t.Indexed) (ht : t.WellTyped)
    (bs : List Builtin) :
    (bs.foldl Table.pushBuiltin t).Indexed ∧ (bs.foldl Table.pushBuiltin t).WellTyped := by
  induction bs generalizing t with
  | nil => exact ⟨hi, ht⟩
  | cons b bs ih => exact ih (hi.push rfl) (ht.push rfl)

theorem Grown.proper (hc : c.Grown) : c.Proper := by
  obtain ⟨bs, probeLimit, limits, hgrows⟩ := hc
  have hempty : Table.empty.Indexed ∧ Table.empty.WellTyped := by decide
  obtain ⟨hindexed, hwellTyped⟩ := proper_foldl_pushBuiltin hempty.1 hempty.2 bs
  have hseeds : (ofBuiltins bs probeLimit limits).Proper := ⟨hindexed, hwellTyped⟩
  exact hseeds.grows hgrows

/-! ## Seeds -/

theorem forall_mem_ofBuiltins {P : Primitive → Prop} (hP : ∀ id b, P (.ofBuiltin id b))
    (bs : List Builtin) : ∀ p ∈ (Table.ofBuiltins bs).toList, P p := by
  have hfold : ∀ t : Table, (∀ p ∈ t.toList, P p) →
      ∀ p ∈ (bs.foldl Table.pushBuiltin t).toList, P p := by
    induction bs with
    | nil => exact fun t ht => ht
    | cons b bs ih =>
      intro t ht
      refine ih (t.pushBuiltin b) fun p hp => ?_
      rw [Table.pushBuiltin, Table.toList_push, List.mem_append, List.mem_singleton] at hp
      rcases hp with hp | rfl
      · exact ht p hp
      · exact hP t.size b
  have hempty : ∀ p ∈ Table.empty.toList, P p := fun _ hp => nomatch hp
  exact hfold .empty hempty

theorem Grown.costed (hc : c.Grown) : c.table.Costed := by
  obtain ⟨bs, probeLimit, limits, hgrows⟩ := hc
  induction hgrows with
  | refl =>
    have hcost : ∀ b : Builtin, 1 ≤ b.cost := by
      intro b
      cases b <;> decide
    exact forall_mem_ofBuiltins (fun _ b => hcost b) bs
  | tail _ hstep ih =>
    obtain ⟨_, _, _, _, _, h⟩ := hstep
    obtain ⟨-, ⟨_, -, -, rfl⟩ | ⟨-, -, rfl⟩⟩ := register_eq_ok.mp h
    · exact ih
    · exact ih.push (Nat.le_max_right _ 1)

theorem indexed_seedTable (hc : c.table.Indexed) : c.seedTable.Indexed := by
  intro i hi
  have hlength : i < (c.table.toList.take c.seeds).length := hi
  have hsize : i < c.table.entries.size :=
    hlength.trans_le ((List.length_take_le' _ _).trans_eq Array.length_toList)
  have hget : c.seedTable.entries[i] = c.table.entries[i] := by
    simp [seedTable, Table.toList]
  exact (congrArg Primitive.id hget).trans (hc i hsize)

theorem mem_of_mem_seedTable {p : Primitive} (hp : p ∈ c.seedTable.toList) : p ∈ c.table.toList :=
  List.mem_of_mem_take hp

end Catalog

end Exemplar
