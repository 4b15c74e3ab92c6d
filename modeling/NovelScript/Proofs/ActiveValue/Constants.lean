import NovelScript.Play.State
import NovelScript.Proofs.Bytes.Progress

/-! # Constant values

A node that asks a state for nothing, neither for a cell nor for a random number, comes to the same
in every state and leaves it as it is. Evaluation visits every node of a value, so it succeeds
without a state only if no node asks for anything. -/

namespace NovelScript

/-- A node that asks a state for nothing, itself or below it. -/
def Element.Stateless : Element → Prop
  | .unary op _ x => op ≠ memorySelector ∧ op ≠ randomOp ∧ x.Stateless
  | .binary _ _ x y => x.Stateless ∧ y.Stateless
  | .memop .. => False
  | .literal _ | .operator .. | .missing => True

/-- A value none of whose nodes asks a state for anything. -/
def ActiveValue.Stateless (v : ActiveValue) : Prop := ∀ e ∈ v.values, e.Stateless

namespace Evaluation

variable {σ α β : Type}

/-- In every state the second evaluation comes to what the first one comes to without a state, and
it leaves the state as it is. -/
def Still (without : Evaluation NoState α) (e : Evaluation σ α) : Prop :=
  ∀ s, e s = ((without ⟨⟩).1, s)

/-- An evaluation of two parts that succeeds has succeeded in both. -/
theorem bind_eq_ok {x : Evaluation σ α} {f : α → Evaluation σ β} {s s' : σ} {b : β}
    (h : (x >>= f) s = (.ok b, s')) : ∃ a s₁, x s = (.ok a, s₁) ∧ f a s₁ = (.ok b, s') := by
  rw [bind_apply] at h
  rcases hx : x s with ⟨outcome, s₁⟩
  rw [hx] at h
  cases outcome with
  | error fault => cases h
  | ok a => exact ⟨a, s₁, rfl, h⟩

theorem Still.pure (a : α) : Still (Pure.pure a) (Pure.pure a : Evaluation σ α) := fun _ => rfl

theorem Still.fail (fault : Fault) :
    Still (Evaluation.fail fault) (Evaluation.fail fault : Evaluation σ α) := fun _ => rfl

theorem Still.lift (result : Except Fault α) :
    Still (Evaluation.lift result) (Evaluation.lift result : Evaluation σ α) := fun _ => rfl

theorem Still.bind {x : Evaluation NoState α} {y : Evaluation σ α} {f : α → Evaluation NoState β}
    {g : α → Evaluation σ β} (h : Still x y) (hrest : ∀ a, Still (f a) (g a)) :
    Still (x >>= f) (y >>= g) := by
  intro s
  rw [bind_apply, bind_apply, h s]
  rcases x ⟨⟩ with ⟨outcome, ⟨⟩⟩
  cases outcome with
  | error fault => rfl
  | ok a => exact hrest a s

end Evaluation

open Evaluation

namespace Element

variable {σ : Type} [ValueContext σ] {e : Element}

theorem still_eval (h : e.Stateless) : Still e.eval (e.eval : Evaluation σ Int64) := by
  induction e with
  | literal value => exact .pure _
  | operator op p => exact .fail _
  | unary op p x ih =>
    obtain ⟨hread, hdraw, hx⟩ := h
    refine (ih hx).bind fun a => ?_
    simp only [applyUnary, if_neg hread, if_neg hdraw]
    split
    · exact .lift _
    · exact .fail _
  | binary op p x y ihx ihy =>
    refine (ihx h.1).bind fun a => (ihy h.2).bind fun b => ?_
    unfold applyBinary
    split
    · exact .lift _
    · exact .fail _
  | memop op p target address value => exact h.elim
  | missing => exact .fail _

theorem still_evalTop (h : e.Stateless) : Still e.evalTop (e.evalTop : Evaluation σ ValueResult) := by
  have hnumber := (still_eval (σ := σ) h).bind fun a => .pure (ValueResult.number a)
  cases e with
  | memop op p target address value => exact h.elim
  | _ => exact hnumber

/-- What succeeds without a state asks for none: each of its nodes is visited. -/
theorem stateless_of_eval {number : Int64} {s s' : NoState} (h : e.eval s = (.ok number, s')) :
    e.Stateless := by
  induction e generalizing number s s' with
  | literal value => trivial
  | operator op p => trivial
  | unary op p x ih =>
    obtain ⟨a, s₁, hx, hop⟩ := bind_eq_ok h
    refine ⟨?_, ?_, ih hx⟩
    · rintro rfl
      cases hop
    · rintro rfl
      cases hop
  | binary op p x y ihx ihy =>
    obtain ⟨a, s₁, hx, hrest⟩ := bind_eq_ok h
    obtain ⟨b, s₂, hy, -⟩ := bind_eq_ok hrest
    exact ⟨ihx hx, ihy hy⟩
  | memop op p target address value => cases h
  | missing => trivial

/-- A memory operation reads its cell, so there is none in what succeeds without a state. -/
theorem stateless_of_evalTop {result : ValueResult} {s s' : NoState}
    (h : e.evalTop s = (.ok result, s')) :
    e.Stateless ∧ ∃ number, result = .number number := by
  have hplain {number : Int64} {s₁ : NoState} (hnumber : e.eval s = (.ok number, s₁))
      (hresult : (.ok (.number number), s₁) = (Except.ok (ε := Fault) result, s')) :
      e.Stateless ∧ ∃ number, result = .number number := by
    cases hresult
    exact ⟨stateless_of_eval hnumber, number, rfl⟩
  cases e with
  | memop op p target address value =>
    simp only [evalTop] at h
    split at h
    · cases h
    · obtain ⟨cell, s₁, -, hread⟩ := bind_eq_ok h
      cases hread
  | _ =>
    obtain ⟨number, s₁, hnumber, hresult⟩ := bind_eq_ok h
    exact hplain hnumber hresult

end Element

namespace ActiveValue

theorem still_evalAll {σ : Type} [ValueContext σ] {elements : List Element}
    (h : ∀ e ∈ elements, e.Stateless) :
    Still (evalAll elements) (evalAll elements : Evaluation σ (List ValueResult)) := by
  induction elements with
  | nil => exact .pure _
  | cons e rest ih =>
    obtain ⟨he, hrest⟩ := List.forall_mem_cons.mp h
    exact (Element.still_evalTop he).bind fun first => (ih hrest).bind fun others => .pure _

theorem stateless_of_evalAll {elements : List Element} {results : List ValueResult}
    {s s' : NoState} (h : evalAll elements s = (.ok results, s')) :
    (∀ e ∈ elements, e.Stateless) ∧ ∃ numbers : List Int64, results = numbers.map .number := by
  induction elements generalizing results s s' with
  | nil =>
    cases h
    exact ⟨List.forall_mem_nil _, [], rfl⟩
  | cons e rest ih =>
    obtain ⟨first, s₁, hfirst, h⟩ := bind_eq_ok h
    obtain ⟨others, s₂, hothers, h⟩ := bind_eq_ok h
    obtain ⟨he, number, rfl⟩ := Element.stateless_of_evalTop hfirst
    obtain ⟨hrest, numbers, rfl⟩ := ih hothers
    cases h
    exact ⟨List.forall_mem_cons.mpr ⟨he, hrest⟩, number :: numbers, rfl⟩

theorem mapM_toNumber (numbers : List Int64) :
    (numbers.map ValueResult.number).mapM ValueResult.toNumber = .ok numbers := by
  induction numbers with
  | nil => rfl
  | cons number numbers ih =>
    rw [List.map_cons, List.mapM_cons, ih]
    rfl

/-- The constant numbers of a value are the outcomes of its evaluation without a state. -/
theorem constantValues_eq_ok_iff (v : ActiveValue) (numbers : List Int64) :
    v.constantValues = .ok numbers ↔
      (evalAll v.values (⟨⟩ : NoState)).1 = .ok (numbers.map .number) := by
  have hvalues : v.constantValues =
      ((evalAll v.values (⟨⟩ : NoState)).1 >>= fun results =>
        results.mapM ValueResult.toNumber) := rfl
  rw [hvalues]
  rcases hrun : evalAll v.values (⟨⟩ : NoState) with ⟨outcome, s⟩
  cases outcome with
  | error fault => simp [bind, Except.bind]
  | ok results =>
    obtain ⟨-, found, rfl⟩ := stateless_of_evalAll hrun
    rw [exceptBind_ok, mapM_toNumber, Except.ok.injEq, Except.ok.injEq]
    exact (List.map_inj_right fun a b h => ValueResult.number.inj h).symm

/-- A value has constant numbers if and only if it asks a state for nothing and evaluation, in
whatever state, comes to these numbers and leaves the state as it is. -/
theorem constantValues_iff_evaluate (v : ActiveValue) (numbers : List Int64) (s : PlayState) :
    v.constantValues = .ok numbers ↔
      v.Stateless ∧ v.evaluate none s = (.ok (numbers.map .number), s) := by
  rw [constantValues_eq_ok_iff]
  constructor
  · intro h
    have hrun : evalAll v.values (⟨⟩ : NoState) = (.ok (numbers.map .number), ⟨⟩) :=
      Prod.ext h rfl
    have hstateless : v.Stateless := (stateless_of_evalAll hrun).1
    have hstill := still_evalAll (σ := PlayState) hstateless s
    rw [h] at hstill
    exact ⟨hstateless, hstill⟩
  · rintro ⟨hstateless, hrun⟩
    have hstill := still_evalAll (σ := PlayState) hstateless s
    exact congrArg Prod.fst (hstill.symm.trans hrun)

/-- The engine state can be asked for, since it is the same in every state. -/
example : constantValues ⟨[.binary 0x03 1 (.unary 0x2d 2 (.literal 7)) (.literal 2)], none⟩ =
    .ok [2] := rfl

end ActiveValue

end NovelScript
