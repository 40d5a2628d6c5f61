import Exemplar.Problem
import Exemplar.Proofs.Result
import Exemplar.Proofs.Term
import Exemplar.Terminal
import Exemplar.Typing

/-!
# What inference accepts

An application has a type exactly if its primitive exists and its arguments have the types of the
parameters (`infer_apply`); values of a plain type have its form (`hasTy_int`, …). A table is well
typed if its builtin operations carry their own signatures and its bodies return what they declare.
-/

namespace Exemplar

/-! ## Terms -/

namespace Term

variable {t : Table} {inputs : List Ty}

theorem checkArgs_eq_ok {name : String} {args : List Term} {params : List Ty} {i : Nat}
    (hlength : args.length = params.length) :
    checkArgs t inputs name i args params = .ok () ↔
      List.Forall₂ (fun a ty => a.infer t inputs = .ok ty) args params := by
  induction args generalizing params i with
  | nil =>
    obtain rfl : params = [] := List.length_eq_zero_iff.mp hlength.symm
    simp [checkArgs]
  | cons e es ih =>
    cases params with
    | nil => simp at hlength
    | cons expected rest =>
      rw [checkArgs, bind_eq_ok, List.forall₂_cons]
      constructor
      · rintro ⟨actual, hactual, hrest⟩
        split at hrest
        · rename_i heq
          exact ⟨heq ▸ hactual, (ih (by simpa using hlength)).mp hrest⟩
        · cases hrest
      · rintro ⟨hactual, hrest⟩
        refine ⟨expected, hactual, ?_⟩
        rw [if_pos rfl]
        exact (ih (by simpa using hlength)).mpr hrest

theorem infer_apply {id : PrimId} {args : List Term} {ty : Ty} :
    (Term.apply id args).infer t inputs = .ok ty ↔
      ∃ p, t.get? id = some p ∧ p.signature.ret = ty ∧
        List.Forall₂ (fun a ty => a.infer t inputs = .ok ty) args p.signature.params := by
  rw [infer]
  cases hget : t.get? id with
  | none => simp
  | some p =>
    simp only [Option.some.injEq, exists_eq_left']
    by_cases hlength : args.length = p.arity
    · rw [if_pos hlength, bind_eq_ok]
      constructor
      · rintro ⟨_, hargs, hret⟩
        exact ⟨pure_eq_ok.mp hret, (checkArgs_eq_ok hlength).mp hargs⟩
      · rintro ⟨rfl, hargs⟩
        exact ⟨(), (checkArgs_eq_ok hlength).mpr hargs, rfl⟩
    · rw [if_neg hlength]
      constructor
      · intro h
        cases h
      · rintro ⟨_, hargs⟩
        exact absurd hargs.length_eq hlength

theorem infer_var {i : Nat} {ty : Ty} :
    (Term.var i).infer t inputs = .ok ty ↔ inputs[i]? = some ty := by
  rw [infer]
  cases inputs[i]? <;> simp

end Term

/-! ## Values -/

/-- A value has a type over a table. -/
def Value.HasTy (t : Table) (v : Value) (ty : Ty) : Prop := v.infer t = .ok ty

namespace Value

variable {t : Table} {v : Value}

instance (ty : Ty) : Decidable (v.HasTy t ty) := decidableEqOk _ _

theorem hasTy_func {f : Fn} {ty : Ty} :
    (Value.func f).HasTy t ty ↔ ∃ s, f.infer t = .ok s ∧ s.asTy = ty := by
  rw [HasTy, infer]
  cases f.infer t <;> simp [Functor.map, Except.map]

theorem hasTy_int : v.HasTy t .int ↔ ∃ n, v = .int n := by
  cases v with
  | func f => simp [hasTy_func, Signature.asTy]
  | _ => simp [HasTy, infer]

theorem hasTy_bool : v.HasTy t .bool ↔ ∃ b, v = .bool b := by
  cases v with
  | func f => simp [hasTy_func, Signature.asTy]
  | _ => simp [HasTy, infer]

theorem hasTy_list : v.HasTy t .list ↔ ∃ xs, v = .list xs := by
  cases v with
  | func f => simp [hasTy_func, Signature.asTy]
  | _ => simp [HasTy, infer]

theorem hasTy_funcTy {params : List Ty} {ret : Ty} :
    v.HasTy t (.func params ret) ↔ ∃ f, v = .func f ∧ f.infer t = .ok ⟨params, ret⟩ := by
  cases v with
  | func f =>
    rw [hasTy_func]
    constructor
    · rintro ⟨⟨_, _⟩, hf, heq⟩
      obtain ⟨rfl, rfl⟩ := Ty.func.inj heq
      exact ⟨f, rfl, hf⟩
    · rintro ⟨f', hf', hf⟩
      obtain rfl := Value.func.inj hf'
      exact ⟨_, hf, rfl⟩
  | _ => simp [HasTy, infer]

theorem hasTy_unique {ty ty' : Ty} (h : v.HasTy t ty) (h' : v.HasTy t ty') : ty = ty' :=
  Except.ok.inj (h.symm.trans h')

theorem hasTy_of_plainTy? {ty : Ty} (h : v.plainTy? = some ty) : v.HasTy t ty := by
  cases v <;> simp_all [plainTy?, HasTy, infer]

end Value

theorem Fn.infer_compose {t : Table} {outer inner : Fn} {s : Signature} :
    (Fn.compose outer inner).infer t = .ok s ↔
      ∃ o i, outer.infer t = .ok o ∧ inner.infer t = .ok i ∧ o.params = [i.ret] ∧
        s = ⟨i.params, o.ret⟩ := by
  rw [infer, bind_eq_ok]
  constructor
  · rintro ⟨o, ho, h⟩
    obtain ⟨i, hi, h⟩ := bind_eq_ok.mp h
    split at h
    · rename_i hparams
      exact ⟨o, i, ho, hi, hparams, (pure_eq_ok.mp h).symm⟩
    · cases h
  · rintro ⟨o, i, ho, hi, hparams, rfl⟩
    refine ⟨o, ho, bind_eq_ok.mpr ⟨i, hi, ?_⟩⟩
    rw [if_pos hparams]
    rfl

/-! ## Tables -/

/-- Whether a primitive returns what it declares: a builtin operation carries its own signature, and
a body has the declared type over the same table. -/
def Primitive.WellTyped (t : Table) (p : Primitive) : Prop :=
  match p.rule with
  | .builtin b => p.signature = b.signature
  | .learned body => body.infer t p.signature.params = .ok p.signature.ret

instance (t : Table) (p : Primitive) : Decidable (p.WellTyped t) :=
  match h : p.rule with
  | .builtin b => decidable_of_iff (p.signature = b.signature) (by rw [Primitive.WellTyped, h])
  | .learned body =>
    decidable_of_iff (body.infer t p.signature.params = .ok p.signature.ret)
      (by rw [Primitive.WellTyped, h])

namespace Table

variable {t : Table} {id : PrimId} {p : Primitive}

/-- All primitives return what they declare; bodies may name any primitive of the table. -/
def WellTyped (t : Table) : Prop := ∀ p ∈ t.toList, p.WellTyped t

/-- Every primitive carries its own position. -/
def Indexed (t : Table) : Prop := ∀ i (h : i < t.entries.size), t.entries[i].id = i

/-- Every primitive weighs at least one. -/
def Costed (t : Table) : Prop := ∀ p ∈ t.toList, 1 ≤ p.cost

/-- Its conditionals declare no more parameters than a condition and two branches. With more of them a
conditional is malformed in a term, and yet it can be applied to values. -/
def Ternary (t : Table) : Prop := ∀ p ∈ t.toList, p.rule = .builtin .cond → p.arity ≤ 3

instance : Decidable t.WellTyped := inferInstanceAs (Decidable (∀ p ∈ t.toList, p.WellTyped t))

instance : Decidable t.Indexed :=
  inferInstanceAs (Decidable (∀ i (h : i < t.entries.size), t.entries[i].id = i))

instance : Decidable t.Costed := inferInstanceAs (Decidable (∀ p ∈ t.toList, 1 ≤ p.cost))

instance : Decidable t.Ternary :=
  inferInstanceAs (Decidable (∀ p ∈ t.toList, p.rule = .builtin .cond → p.arity ≤ 3))

theorem WellTyped.ternary (ht : t.WellTyped) : t.Ternary := by
  intro p hp hrule
  have htyped := ht p hp
  rw [Primitive.WellTyped, hrule] at htyped
  rw [Primitive.arity, htyped]
  exact Nat.le_refl 3

theorem mem_of_get? (h : t.get? id = some p) : p ∈ t.toList :=
  Array.mem_toList_iff.mpr (Array.mem_of_getElem? h)

theorem builtin?_eq_some {b : Builtin} :
    t.builtin? id = some b ↔ ∃ p, t.get? id = some p ∧ p.rule = .builtin b := by
  rw [builtin?]
  cases hget : t.get? id with
  | none => simp
  | some p => cases hrule : p.rule <;> simp [Primitive.builtin?, hrule]

theorem Indexed.id_eq (ht : t.Indexed) (h : t.get? id = some p) : p.id = id := by
  obtain ⟨hlt, rfl⟩ := Array.getElem?_eq_some_iff.mp h
  exact ht id hlt

theorem Indexed.get?_id (ht : t.Indexed) (h : p ∈ t.toList) : t.get? p.id = some p := by
  obtain ⟨i, hi, rfl⟩ := Array.getElem_of_mem (Array.mem_toList_iff.mp h)
  rw [ht i hi, get?, Array.getElem?_eq_getElem hi]

theorem cost_of_get? (h : t.get? id = some p) : t.cost id = p.cost := by
  rw [cost, h]
  rfl

theorem Costed.one_le_cost (ht : t.Costed) (id : PrimId) : 1 ≤ t.cost id := by
  cases hget : t.get? id with
  | none => simp [cost, hget]
  | some p =>
    rw [cost_of_get? hget]
    exact ht p (mem_of_get? hget)

theorem Costed.one_le_size (ht : t.Costed) (e : Term) : 1 ≤ e.size t := by
  cases e with
  | apply id args =>
    rw [Term.size_apply]
    exact Nat.le_add_right_of_le (ht.one_le_cost id)
  | _ => exact Nat.le_refl 1

theorem Costed.size_arg_lt (ht : t.Costed) (id : PrimId) {args : List Term} {a : Term}
    (ha : a ∈ args) : a.size t < (Term.apply id args).size t := by
  have hcost := ht.one_le_cost id
  have hweight := Term.weight_le_weightList t.cost ha
  rw [Term.size, Term.size, Term.weight]
  omega

end Table

/-! ## Terminals -/

namespace Terminal

variable {t : Table} {inputs : List Ty} {ints : List Int} {l : Terminal}

theorem isLeaf_of_mem_all (h : l ∈ all t inputs ints) : l.term.isLeaf = true := by
  simp only [all, List.mem_append] at h
  rcases h with ((h | h) | h) | h
  · obtain ⟨_, _, rfl⟩ := List.mem_map.mp h
    rfl
  · obtain ⟨_, _, rfl⟩ := List.mem_map.mp h
    rfl
  · simp only [fixed, List.mem_cons, List.not_mem_nil, or_false] at h
    rcases h with rfl | rfl | rfl <;> rfl
  · obtain ⟨_, _, rfl⟩ := List.mem_map.mp h
    rfl

theorem infer_of_mem_all (ht : t.Indexed) (h : l ∈ all t inputs ints) :
    l.term.infer t inputs = .ok l.ty := by
  simp only [all, List.mem_append] at h
  rcases h with ((h | h) | h) | h
  · obtain ⟨⟨ty, i⟩, hmem, rfl⟩ := List.mem_map.mp h
    exact Term.infer_var.mpr (List.mem_zipIdx_iff_getElem?.mp hmem)
  · obtain ⟨_, _, rfl⟩ := List.mem_map.mp h
    rfl
  · simp only [fixed, List.mem_cons, List.not_mem_nil, or_false] at h
    rcases h with rfl | rfl | rfl <;> rfl
  · obtain ⟨p, hmem, rfl⟩ := List.mem_map.mp h
    have hget := ht.get?_id (List.mem_of_mem_filter hmem)
    exact Value.hasTy_func.mpr ⟨p.signature, by rw [Fn.infer, hget], rfl⟩

end Terminal

/-! ## Problems -/

namespace Problem

theorem plainTy_eq_ok {v : Value} {ty : Ty} : plainTy v = .ok ty ↔ v.plainTy? = some ty := by
  rw [plainTy]
  cases v.plainTy? <;> simp

/-- An example whose inputs and output are plain data of the types of a signature. -/
def Fits (s : Signature) (e : Example) : Prop :=
  List.Forall₂ (fun v ty => Value.plainTy? v = some ty) e.inputs s.params ∧
    e.output.plainTy? = some s.ret

theorem checkInputs_eq_ok {i j : Nat} {vs : List Value} {tys : List Ty}
    (hlength : vs.length = tys.length) : checkInputs i j vs tys = .ok () ↔
      List.Forall₂ (fun v ty => Value.plainTy? v = some ty) vs tys := by
  induction vs generalizing tys j with
  | nil =>
    obtain rfl : tys = [] := List.length_eq_zero_iff.mp hlength.symm
    simp [checkInputs]
  | cons v vs ih =>
    cases tys with
    | nil => simp at hlength
    | cons ty tys =>
      rw [checkInputs, bind_eq_ok, List.forall₂_cons, ← plainTy_eq_ok]
      constructor
      · rintro ⟨actual, hactual, h⟩
        split at h
        · rename_i heq
          exact ⟨heq ▸ hactual, (ih (by simpa using hlength)).mp h⟩
        · cases h
      · rintro ⟨hty, htys⟩
        refine ⟨ty, hty, ?_⟩
        rw [if_pos rfl]
        exact (ih (by simpa using hlength)).mpr htys

theorem checkExample_eq_ok {s : Signature} {i : Nat} {e : Example} :
    checkExample s i e = .ok () ↔ Fits s e := by
  rw [checkExample]
  constructor
  · intro h
    split at h
    · rename_i hlength
      obtain ⟨_, hinputs, h⟩ := bind_eq_ok.mp h
      obtain ⟨actual, hactual, h⟩ := bind_eq_ok.mp h
      split at h
      · rename_i heq
        exact ⟨(checkInputs_eq_ok hlength).mp hinputs, plainTy_eq_ok.mp (heq ▸ hactual)⟩
      · cases h
    · cases h
  · rintro ⟨hinputs, houtput⟩
    have hlength : e.inputs.length = s.arity := hinputs.length_eq
    rw [if_pos hlength]
    refine bind_eq_ok.mpr ⟨(), (checkInputs_eq_ok hlength).mpr hinputs, ?_⟩
    refine bind_eq_ok.mpr ⟨s.ret, plainTy_eq_ok.mpr houtput, ?_⟩
    rw [if_pos rfl]
    rfl

theorem checkExamples_eq_ok {s : Signature} {i : Nat} {es : List Example} :
    checkExamples s i es = .ok () ↔ ∀ e ∈ es, Fits s e := by
  induction es generalizing i with
  | nil => simp [checkExamples]
  | cons e es ih =>
    rw [checkExamples, bind_eq_ok, List.forall_mem_cons, ← ih, ← checkExample_eq_ok]
    exact ⟨fun ⟨_, hhead, htail⟩ => ⟨hhead, htail⟩, fun ⟨hhead, htail⟩ => ⟨(), hhead, htail⟩⟩

/-- **A problem has an example, and all of its examples fit its signature.** Nothing else is asked. -/
theorem signature_eq_ok_iff {es : List Example} {s : Signature} :
    signature es = .ok s ↔ es ≠ [] ∧ ∀ e ∈ es, Fits s e := by
  cases es with
  | nil => simp [signature]
  | cons e es =>
    rw [signature, bind_eq_ok, List.forall_mem_cons]
    constructor
    · rintro ⟨params, hparams, h⟩
      obtain ⟨ret, hret, h⟩ := bind_eq_ok.mp h
      obtain ⟨_, hrest, h⟩ := bind_eq_ok.mp h
      obtain rfl := pure_eq_ok.mp h
      refine ⟨by simp, ⟨?_, plainTy_eq_ok.mp hret⟩, checkExamples_eq_ok.mp hrest⟩
      exact (mapM_eq_ok.mp hparams).imp fun v ty hv => plainTy_eq_ok.mp hv
    · rintro ⟨-, ⟨hinputs, houtput⟩, hrest⟩
      refine ⟨s.params, mapM_eq_ok.mpr (hinputs.imp fun v ty hv => plainTy_eq_ok.mpr hv), ?_⟩
      refine bind_eq_ok.mpr ⟨s.ret, plainTy_eq_ok.mpr houtput, ?_⟩
      exact bind_eq_ok.mpr ⟨(), checkExamples_eq_ok.mpr hrest, rfl⟩

theorem signature_eq_ok {es : List Example} {s : Signature} (h : signature es = .ok s) :
    es ≠ [] ∧ ∀ e ∈ es, Fits s e := signature_eq_ok_iff.mp h

end Problem

end Exemplar
