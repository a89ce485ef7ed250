import Negatus.Buffer.Fifo

/-!
# Histories of calls

`Reached ok n b q`: a history of calls on a buffer with default block size `n`,
each made where `ok` allows it, has led to `b`, and `q` is what was put without
what was handed out. Nothing is assumed about the integers: a call whose result
is undefined leads nowhere, and all others keep the chain tidy.
-/

namespace Negatus

open Foundations

namespace BlockBuffer

/-- How many bytes a call has taken out of the buffer. -/
def taken : BufferOp → Reply → Nat
  | .get _, r | .getline, r => r.out.length
  | .getlineArray _ _, r => r.ret.toNat
  | _, _ => 0

def given : BufferOp → Bytes
  | .put bs => bs
  | _ => []

inductive Reached (ok : BlockBuffer → BufferOp → Prop) (n : Nat) : BlockBuffer → Bytes → Prop
  | new : Reached ok n (new n) []
  | call {b b' : BlockBuffer} {q : Bytes} {op : BufferOp} {r : Reply} (h : Reached ok n b q)
      (hok : ok b op) (hstep : step b op = some (r, b')) :
      Reached ok n b' (q.drop (taken op r) ++ given op)

/-- The array overload stores nothing, or a prefix of the queue and a NUL. -/
theorem getlineArray_cases {b : BlockBuffer} (h : b.Linked) (out : Bytes) (size : Nat) :
    b.getlineArray out size = none ∨ b.getlineArray out size = some (out, 0, b) ∨
      b.getlineArray out size = some (out, -1, b) ∨
      ∃ out' b', ∃ n : Nat, b.getlineArray out size = some (out', (n : Int), b') ∧
        n ≤ b.unread.length ∧ Advanced b n b' := by
  rcases find_range h with hnone | hfind | ⟨n, hfind, hlt, hle⟩ | ⟨len, hfind, hneg⟩
  · exact Or.inl (by simp [getlineArray, hnone])
  · exact Or.inr (Or.inl (by simp [getlineArray, hfind]))
  · by_cases hmax : n < 2 ^ 31 - 1
    · obtain ⟨b', hget, hadv⟩ := getlineArray_of_find h hmax hfind hle out size
      rw [hget]
      split
      · exact Or.inr (Or.inr (Or.inl rfl))
      · split
        · exact Or.inr (Or.inr (Or.inr ⟨_, b', n, rfl, hle, hadv⟩))
        · exact Or.inl rfl
    · rw [getlineArray_stuck hfind (by omega)]
      split
      · exact Or.inr (Or.inr (Or.inl rfl))
      · exact Or.inl rfl
  · rw [getlineArray_stuck hfind (Or.inr hneg)]
    split
    · exact Or.inr (Or.inr (Or.inl rfl))
    · exact Or.inl rfl

/-- What every defined call does to a tidy chain, the calls of `get` apart. -/
structure Called (b : BlockBuffer) (op : BufferOp) (r : Reply) (b' : BlockBuffer) : Prop where
  tidy : b'.Tidy
  unread_eq : b'.unread = b.unread.drop (taken op r) ++ given op
  bounded : ∀ m, b.Bounded m → b'.Bounded m

/-- And to any chain. -/
structure Kept (b : BlockBuffer) (op : BufferOp) (r : Reply) (b' : BlockBuffer) : Prop where
  linked : b'.Linked
  unread_eq : b'.unread = b.unread.drop (taken op r) ++ given op
  tidy : b.Tidy → b'.Tidy
  bounded : ∀ m, b.Bounded m → b'.Bounded m

theorem Kept.called {b b' : BlockBuffer} {op : BufferOp} {r : Reply} (hkept : Kept b op r b')
    (h : b.Tidy) : Called b op r b' :=
  ⟨hkept.tidy h, hkept.unread_eq, hkept.bounded⟩

theorem Advanced.kept {b b' : BlockBuffer} {n : Nat} (hadv : Advanced b n b') {op : BufferOp}
    {r : Reply} (htaken : taken op r = n) (hgiven : given op = []) : Kept b op r b' where
  linked := hadv.linked
  unread_eq := by rw [hadv.unread_eq, htaken, hgiven, List.append_nil]
  tidy := hadv.tidy
  bounded := hadv.bounded

theorem Kept.refl {b : BlockBuffer} (h : b.Linked) {op : BufferOp} {r : Reply}
    (htaken : taken op r = 0) (hgiven : given op = []) : Kept b op r b where
  linked := h
  unread_eq := by rw [htaken, hgiven, List.drop_zero, List.append_nil]
  tidy := id
  bounded := fun _ => id

/-- One call that is defined, and does not ask `get` for more than is there. -/
theorem step_kept {b b' : BlockBuffer} {op : BufferOp} {r : Reply} (h : b.Linked)
    (hget : ∀ size, op = .get size → size ≤ b.unread.length)
    (hstep : step b op = some (r, b')) : Kept b op r b' := by
  cases op with
  | put bs =>
      obtain ⟨b₁, hput, hfill⟩ := put_spec h bs
      obtain ⟨-, rfl⟩ : _ ∧ b₁ = b' := by simpa [step, hput] using hstep
      exact ⟨hfill.linked, by rw [hfill.unread_eq]; rfl, hfill.tidy, hfill.bounded⟩
  | get size =>
      have hle := hget size rfl
      obtain ⟨b₁, hgot, hadv⟩ := get_spec h hle
      obtain ⟨rfl, rfl⟩ : _ = r ∧ b₁ = b' := by simpa [step, hgot] using hstep
      exact hadv.kept (by simp [taken, hle]) rfl
  | getline =>
      rcases getline_cases h with hnone | ⟨n, b₁, hsome, -, hle, hadv⟩
      · simp [step, hnone] at hstep
      · obtain ⟨rfl, rfl⟩ : _ = r ∧ b₁ = b' := by simpa [step, hsome] using hstep
        exact hadv.kept (by simp [taken, hle]) rfl
  | getlineArray out size =>
      rcases getlineArray_cases h out size with hnone | hsome | hsome |
        ⟨out', b₁, n, hsome, hle, hadv⟩
      · simp [step, hnone] at hstep
      · obtain ⟨rfl, rfl⟩ : _ = r ∧ b = b' := by simpa [step, hsome] using hstep
        exact Kept.refl h rfl rfl
      · obtain ⟨rfl, rfl⟩ : _ = r ∧ b = b' := by simpa [step, hsome] using hstep
        exact Kept.refl h rfl rfl
      · obtain ⟨rfl, rfl⟩ : _ = r ∧ b₁ = b' := by simpa [step, hsome] using hstep
        exact hadv.kept rfl rfl
  | find =>
      obtain ⟨len, -, rfl, rfl⟩ : ∃ len, b.find newline = some len ∧ ⟨len, []⟩ = r ∧ b = b' := by
        simpa [step, Option.bind_eq_some_iff] using hstep
      exact Kept.refl h rfl rfl
  | avail =>
      obtain ⟨m, -, rfl, rfl⟩ : ∃ m, b.avail = some m ∧ ⟨(m : Int), []⟩ = r ∧ b = b' := by
        simpa [step, Option.bind_eq_some_iff] using hstep
      exact Kept.refl h rfl rfl

theorem step_called {b b' : BlockBuffer} {op : BufferOp} {r : Reply} (h : b.Tidy)
    (hget : ∀ size, op = .get size → size ≤ b.unread.length)
    (hstep : step b op = some (r, b')) : Called b op r b' :=
  (step_kept h.toLinked hget hstep).called h

/-- If the allowed calls keep the chain tidy, then every history of them leads to
a tidy chain, and this chain holds what was put without what was handed out. -/
theorem Reached.called {ok : BlockBuffer → BufferOp → Prop} {n : Nat} (hn : 0 < n)
    (hok : ∀ b op r b', b.Tidy → ok b op → step b op = some (r, b') → Called b op r b')
    {b : BlockBuffer} {q : Bytes} (h : Reached ok n b q) :
    b.Tidy ∧ b.unread = q ∧ ∀ m, n ≤ m → b.Bounded m := by
  induction h with
  | new => exact ⟨new_tidy hn, new_unread n, fun m hm => new_bounded hm⟩
  | call _ hop hstep ih =>
      obtain ⟨htidy, hunread, hbound⟩ := ih
      have hcall := hok _ _ _ _ htidy hop hstep
      exact ⟨hcall.tidy, hunread ▸ hcall.unread_eq, fun m hm => hcall.bounded m (hbound m hm)⟩

/-! ## Queue behaviour from a tidy chain on -/

/-- `put` and `get` calls whose counts fit an `int`, with `get` asking for what is
there. -/
def QueueLegal (q : Bytes) : BufferOp → Prop
  | .put bs => bs.length < 2 ^ 31
  | .get size => size ≤ q.length ∧ size < 2 ^ 31
  | _ => False

theorem refines_queue : Refines step fifoStep QueueLegal unread Tidy where
  square := by
    rintro b op h hlegal
    cases op with
    | put bs =>
        obtain ⟨b', hput, hfill⟩ := put_spec h.toLinked bs
        refine ⟨b', ?_, hfill.tidy h, hfill.unread_eq⟩
        simp [step, fifoStep, hput, int32_of_lt hlegal]
    | get size =>
        obtain ⟨hle, hint⟩ := hlegal
        obtain ⟨b', hget, hadv⟩ := get_spec h.toLinked hle
        refine ⟨b', ?_, hadv.tidy h, hadv.unread_eq⟩
        simp [step, fifoStep, hget, hle, int32_of_lt hint]
    | getline => exact hlegal.elim
    | getlineArray out size => exact hlegal.elim
    | find => exact hlegal.elim
    | avail => exact hlegal.elim

end BlockBuffer

end Negatus
