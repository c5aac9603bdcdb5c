import CarFirmware.Lib.Transition

/-! Machines that answer every input with a list of outputs. A `Ledger` says what is due at
each input; a machine that `Keeps` it step by step has at the end of every run put out exactly
what was due. `Env` closes a machine: it decides which inputs can come and takes the outputs. -/

namespace Reactive

open Transition

variable {σ τ ε ι κ ο β : Type*}

def run (step : σ → ι → Option (σ × List ο)) : σ → List ι → Option (σ × List ο)
  | s, [] => some (s, [])
  | s, i :: is => (step s i).bind fun r => (run step r.1 is).map fun t => (t.1, r.2 ++ t.2)

/-- What is due at each input, by a state that follows the inputs. -/
structure Ledger (τ ι β : Type*) where
  next : τ → ι → τ
  due : τ → ι → List β

def Ledger.follow (L : Ledger τ ι β) (t : τ) (is : List ι) : τ := is.foldl L.next t

def Ledger.dues (L : Ledger τ ι β) : τ → List ι → List β
  | _, [] => []
  | t, i :: is => L.due t i ++ L.dues (L.next t i) is

theorem Ledger.dues_append (L : Ledger τ ι β) (t : τ) (is js : List ι) :
    L.dues t (is ++ js) = L.dues t is ++ L.dues (L.follow t is) js := by
  induction is generalizing t with
  | nil => rfl
  | cons i is ih =>
    rw [List.cons_append, dues, dues, ih, List.append_assoc]
    rfl

/-- The same ledger, seen through `f`. -/
def Ledger.through {γ : Type*} (L : Ledger τ ι β) (f : β → Option γ) : Ledger τ ι γ where
  next := L.next
  due t i := (L.due t i).filterMap f

theorem Ledger.dues_through {γ : Type*} (L : Ledger τ ι β) (f : β → Option γ) (t : τ)
    (is : List ι) : (L.through f).dues t is = (L.dues t is).filterMap f := by
  induction is generalizing t with
  | nil => rfl
  | cons i is ih =>
    rw [dues, dues, List.filterMap_append, ← ih]
    rfl

def Ledger.Orderly (L : Ledger τ ι β) (ok : τ → ι → Prop) : τ → List ι → Prop :=
  Always (fun t i => some (L.next t i)) ok

theorem Ledger.orderly_cons {L : Ledger τ ι β} {ok : τ → ι → Prop} {t : τ} {i : ι} {is : List ι} :
    L.Orderly ok t (i :: is) ↔ ok t i ∧ L.Orderly ok (L.next t i) is :=
  and_congr_right fun _ => ⟨fun h => h _ rfl, fun h _ ht => Option.some.inj ht ▸ h⟩

theorem Ledger.orderly_true (L : Ledger τ ι β) (t : τ) (is : List ι) :
    L.Orderly (fun _ _ => True) t is :=
  always_of_forall fun _ _ => trivial

variable {step : σ → ι → Option (σ × List ο)} {L : Ledger τ ι β} {R : σ → τ → Prop}
  {ok : τ → ι → Prop} {view : ο → Option β} {s s' : σ} {t : τ} {is : List ι} {outs : List ο}

/-- A step whose input meets the condition shows what is due and follows the ledger. -/
def Keeps (step : σ → ι → Option (σ × List ο)) (L : Ledger τ ι β) (R : σ → τ → Prop)
    (ok : τ → ι → Prop) (view : ο → Option β) : Prop :=
  ∀ s t i s' out, R s t → ok t i → step s i = some (s', out) →
    R s' (L.next t i) ∧ out.filterMap view = L.due t i

theorem run_cons_eq_some {i : ι} (h : run step s (i :: is) = some (s', outs)) :
    ∃ u out rest, step s i = some (u, out) ∧ run step u is = some (s', rest) ∧
      outs = out ++ rest := by
  obtain ⟨⟨u, out⟩, hs, h⟩ := Option.bind_eq_some_iff.mp h
  obtain ⟨⟨v, rest⟩, hrest, heq⟩ := Option.map_eq_some_iff.mp h
  obtain ⟨rfl, rfl⟩ := Prod.mk.inj heq
  exact ⟨u, out, rest, hs, hrest, rfl⟩

theorem Keeps.run (h : Keeps step L R ok view) (hR : R s t) (hok : L.Orderly ok t is)
    (hrun : run step s is = some (s', outs)) :
    R s' (L.follow t is) ∧ outs.filterMap view = L.dues t is := by
  induction is generalizing s t outs with
  | nil =>
    obtain ⟨rfl, rfl⟩ := Prod.mk.inj (Option.some.inj hrun)
    exact ⟨hR, rfl⟩
  | cons i is ih =>
    obtain ⟨u, out, rest, hs, hrest, rfl⟩ := run_cons_eq_some hrun
    obtain ⟨hi, hrestOk⟩ := Ledger.orderly_cons.mp hok
    obtain ⟨hu, hout⟩ := h s t i u out hR hi hs
    obtain ⟨hend, hseen⟩ := ih hu hrestOk hrest
    refine ⟨hend, ?_⟩
    rw [List.filterMap_append, hout, hseen]
    rfl

/-- An environment. `κ` is what it decides when it takes the outputs. -/
structure Env (ε ι κ ο : Type*) where
  deliver : ε → ι → Option ε
  absorb : κ → ε → ο → ε

def Env.closed (E : Env ε ι κ ο) (step : σ → ι → Option (σ × List ο)) (x : σ × ε) (a : ι × κ) :
    Option (σ × ε) :=
  (E.deliver x.2 a.1).bind fun e => (step x.1 a.1).map fun r =>
    (r.1, r.2.foldl (E.absorb a.2) e)

theorem Env.closed_eq_some {E : Env ε ι κ ο} {x y : σ × ε} {a : ι × κ}
    (h : E.closed step x a = some y) :
    ∃ e out, E.deliver x.2 a.1 = some e ∧ step x.1 a.1 = some (y.1, out) ∧
      y.2 = out.foldl (E.absorb a.2) e := by
  obtain ⟨e, he, h⟩ := Option.bind_eq_some_iff.mp h
  obtain ⟨⟨s, out⟩, hs, rfl⟩ := Option.map_eq_some_iff.mp h
  exact ⟨e, out, he, hs, rfl⟩

end Reactive
