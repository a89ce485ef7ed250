import Mathlib.Algebra.GroupWithZero.Nat
import Mathlib.Data.List.Basic
import Negatus.Foundations.Program

/-!
# Programs that read their answers off a tape

A program that asks its surroundings something can be modelled in two ways: its state is a
tape of answers, or its state is a world that gives them. `Mirrors` says that the first
does what the second does, if the tape has the answers of the world. The rules are those
of programs: they put the answers of the parts one behind the other.

A recursion may be bounded on the tape by the number of answers that are left there, some
of which count. `MirrorsFrom` says that the bound does no harm, if it is at least what the
answers cost.
-/

namespace Foundations

variable {ι τ σ ε α β : Type} {put : ι → τ → τ}

/-- From every state of the world there are answers with which `m` does what `m'` does
there. `put` writes an answer on a tape; what is behind the answers is not touched. -/
def Mirrors (put : ι → τ → τ) (m : EStateM ε τ α) (m' : EStateM ε σ α) : Prop :=
  ∀ s, ∃ answers : List ι, ∀ rest,
    match m' s with
    | .ok a _ => m (answers.foldr put rest) = .ok a rest
    | .error e _ => ∃ rest', m (answers.foldr put rest) = .error e rest'

theorem Mirrors.pure (a : α) :
    Mirrors put (Pure.pure a : EStateM ε τ α) (Pure.pure a : EStateM ε σ α) :=
  fun _ => ⟨[], fun _ => rfl⟩

theorem Mirrors.throw (e : ε) :
    Mirrors put (MonadExcept.throw e : EStateM ε τ α) (MonadExcept.throw e : EStateM ε σ α) :=
  fun _ => ⟨[], fun rest => ⟨rest, rfl⟩⟩

/-- One call, with one answer. -/
theorem Mirrors.call {call : τ → α × τ} {m' : EStateM ε σ α}
    (h : ∀ s, ∃ a s' answer, m' s = .ok a s' ∧ ∀ rest, call (put answer rest) = (a, rest)) :
    Mirrors put (modifyGet call) m' := by
  intro s
  obtain ⟨a, s', answer, hrun, hcall⟩ := h s
  refine ⟨[answer], fun rest => ?_⟩
  rw [hrun]
  show EStateM.Result.ok (call (put answer rest)).1 (call (put answer rest)).2 = _
  rw [hcall]

theorem Mirrors.bind {m : EStateM ε τ α} {m' : EStateM ε σ α} {f : α → EStateM ε τ β}
    {f' : α → EStateM ε σ β} (h : Mirrors put m m') (hf : ∀ a, Mirrors put (f a) (f' a)) :
    Mirrors put (m >>= f) (m' >>= f') := by
  intro s
  obtain ⟨answers, hanswers⟩ := h s
  cases hrun : m' s with
  | error e s' =>
      refine ⟨answers, fun rest => ?_⟩
      have hfail := hanswers rest
      rw [hrun] at hfail
      obtain ⟨rest', hfail⟩ := hfail
      rw [bind_error hrun]
      exact ⟨rest', bind_error hfail⟩
  | ok a s' =>
      obtain ⟨more, hmore⟩ := hf a s'
      refine ⟨answers ++ more, fun rest => ?_⟩
      have hfirst := hanswers (more.foldr put rest)
      rw [hrun] at hfirst
      rw [bind_ok hrun, List.foldr_append, bind_ok hfirst]
      exact hmore rest

theorem Mirrors.ite {p : Prop} [Decidable p] {m n : EStateM ε τ α} {m' n' : EStateM ε σ α}
    (h : Mirrors put m m') (h' : Mirrors put n n') :
    Mirrors put (if p then m else n) (if p then m' else n') := by
  split
  · exact h
  · exact h'

/-! ## Bounded programs -/

section

variable {ε' γ : Type} {cost : ι → Nat} {fault : ε → ε'} {s s' : σ}

/-- The end of a run on a tape is that of a run in the world. The failures of the tape are
failures of the world, which may have others. -/
def Agrees (fault : ε → ε') (end_ : EStateM.Result ε τ α) (rest : τ) :
    EStateM.Result ε' σ α → Prop
  | .ok a _ => end_ = .ok a rest
  | .error e _ => ∀ x, e = fault x → ∃ rest', end_ = .error x rest'

/-- From the state `s` of the world there are answers with which `m` does what `m'` does
there, whatever bound `m` is given from the cost of the answers on. -/
def MirrorsFrom (put : ι → τ → τ) (cost : ι → Nat) (fault : ε → ε') (m : Nat → EStateM ε τ α)
    (m' : EStateM ε' σ α) (s : σ) : Prop :=
  ∃ answers : List ι, ∀ bound rest, (answers.map cost).sum ≤ bound →
    Agrees fault (m bound (answers.foldr put rest)) rest (m' s)

theorem mirrorsFrom_pure (a : α) (s : σ) :
    MirrorsFrom put cost fault (fun _ => Pure.pure a) (Pure.pure a) s :=
  ⟨[], fun _ _ _ => rfl⟩

theorem mirrorsFrom_throw (hfault : Function.Injective fault) (e : ε) (s : σ) :
    MirrorsFrom put cost fault (fun _ => MonadExcept.throw e : Nat → EStateM ε τ α)
      (MonadExcept.throw (fault e)) s := by
  refine ⟨[], fun bound rest _ => ?_⟩
  intro x hx
  rw [hfault hx]
  exact ⟨rest, rfl⟩

/-- The program in the world is one that runs as `m'`. -/
theorem MirrorsFrom.congr {m : Nat → EStateM ε τ α} {m' m'' : EStateM ε' σ α} {s'' : σ}
    (h : MirrorsFrom put cost fault m m' s) (hrun : m'' s'' = m' s) :
    MirrorsFrom put cost fault m m'' s'' := by
  unfold MirrorsFrom at h ⊢
  rwa [hrun]

section

variable {ask : τ → γ × τ} {f : γ → Nat → EStateM ε τ β} {m' : EStateM ε' σ α}
  {f' : α → EStateM ε' σ β} {a : α} {c : γ}

theorem bind_answer {answer : ι} (hcall : ∀ rest, ask (put answer rest) = (c, rest)) (rest : τ)
    {f : γ → EStateM ε τ β} : (modifyGet ask >>= f) (put answer rest) = f c rest := by
  refine bind_ok ?_
  show EStateM.Result.ok (ask (put answer rest)).1 (ask (put answer rest)).2 = _
  rw [hcall]

/-- A call, with one answer. What it returns on the tape need not be what the world says. -/
theorem MirrorsFrom.call (answer : ι) (hrun : m' s = .ok a s')
    (hcall : ∀ rest, ask (put answer rest) = (c, rest))
    (h : MirrorsFrom put cost fault (f c) (f' a) s') :
    MirrorsFrom put cost fault (fun bound => modifyGet ask >>= fun c => f c bound) (m' >>= f') s := by
  obtain ⟨answers, hanswers⟩ := h
  refine ⟨answer :: answers, fun bound rest hbound => ?_⟩
  rw [List.map_cons, List.sum_cons] at hbound
  rw [bind_ok hrun, List.foldr_cons]
  beta_reduce
  rw [bind_answer hcall]
  exact hanswers bound rest (by omega)

/-- A call whose answer counts takes one off the bound. -/
theorem MirrorsFrom.descend {m : Nat → EStateM ε τ β} (answer : ι)
    (hm : ∀ bound, m (bound + 1) = modifyGet ask >>= fun c => f c bound)
    (hcost : 0 < cost answer) (hrun : m' s = .ok a s')
    (hcall : ∀ rest, ask (put answer rest) = (c, rest))
    (h : MirrorsFrom put cost fault (f c) (f' a) s') :
    MirrorsFrom put cost fault m (m' >>= f') s := by
  obtain ⟨answers, hanswers⟩ := h
  refine ⟨answer :: answers, fun bound rest hbound => ?_⟩
  rw [List.map_cons, List.sum_cons] at hbound
  obtain ⟨bound, rfl⟩ : ∃ n, bound = n + 1 := ⟨bound - 1, by omega⟩
  rw [bind_ok hrun, List.foldr_cons, hm, bind_answer hcall]
  exact hanswers bound rest (by omega)

end

theorem MirrorsFrom.bind {m : Nat → EStateM ε τ α} {m' : EStateM ε' σ α}
    {f : α → Nat → EStateM ε τ β} {f' : α → EStateM ε' σ β}
    (h : MirrorsFrom put cost fault m m' s)
    (hf : ∀ a s', m' s = .ok a s' → MirrorsFrom put cost fault (f a) (f' a) s') :
    MirrorsFrom put cost fault (fun bound => m bound >>= fun a => f a bound) (m' >>= f') s := by
  obtain ⟨answers, hanswers⟩ := h
  cases hrun : m' s with
  | error e s' =>
      refine ⟨answers, fun bound rest hbound => ?_⟩
      have hfail := hanswers bound rest hbound
      rw [hrun] at hfail
      rw [bind_error hrun]
      intro x hx
      obtain ⟨rest', hfail⟩ := hfail x hx
      exact ⟨rest', bind_error hfail⟩
  | ok a s' =>
      obtain ⟨more, hmore⟩ := hf a s' hrun
      refine ⟨answers ++ more, fun bound rest hbound => ?_⟩
      rw [List.map_append, List.sum_append] at hbound
      have hfirst := hanswers bound (more.foldr put rest) (by omega)
      rw [hrun] at hfirst
      rw [bind_ok hrun, List.foldr_append]
      beta_reduce
      rw [bind_ok hfirst]
      exact hmore bound rest (by omega)

end

end Foundations
