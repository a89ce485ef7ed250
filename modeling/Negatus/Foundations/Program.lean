import Mathlib.Logic.Relation

/-!
# Programs with state and failure

Rules of postconditions for `EStateM`. `Ensures m s Q E` says where the program
`m` can get from the state `s`: to a value and a state with `Q`, or to a failure
and a state with `E`.

`Keeps I V m` says that `m` keeps an invariant, from whatever state with it.

`Leads R m s Q E` adds to `Ensures` that the states on the way are connected by
steps of a relation `R`. It turns a program into a path of a transition system, which
keeps what every step keeps (`invariant_path`).
-/

namespace Foundations

open Relation

variable {ε σ τ α β : Type}

def Ensures (m : EStateM ε σ α) (s : σ) (Q : α → σ → Prop) (E : ε → σ → Prop) : Prop :=
  match m s with
  | .ok a s' => Q a s'
  | .error e s' => E e s'

variable {Q Q' : α → σ → Prop} {E E' : ε → σ → Prop} {m : EStateM ε σ α} {s : σ}

theorem ensures_ok {a : α} {s' : σ} (hm : m s = .ok a s') : Ensures m s Q E ↔ Q a s' := by
  unfold Ensures
  rw [hm]

theorem ensures_error {e : ε} {s' : σ} (hm : m s = .error e s') : Ensures m s Q E ↔ E e s' := by
  unfold Ensures
  rw [hm]

/-- A postcondition that can be decided can be tested on a run. -/
instance [∀ a s', Decidable (Q a s')] [∀ e s', Decidable (E e s')] :
    Decidable (Ensures m s Q E) :=
  match hm : m s with
  | .ok a s' => decidable_of_iff (Q a s') (ensures_ok hm).symm
  | .error e s' => decidable_of_iff (E e s') (ensures_error hm).symm

theorem Ensures.succeeds (h : Ensures m s Q fun _ _ => False) :
    ∃ a s', m s = .ok a s' ∧ Q a s' := by
  cases hm : m s with
  | ok a s' => exact ⟨a, s', rfl, (ensures_ok hm).mp h⟩
  | error e s' => exact ((ensures_error hm).mp h).elim

/-- A program goes on behind what has succeeded. -/
theorem bind_ok {f : α → EStateM ε σ β} {a : α} {s' : σ} (hm : m s = .ok a s') :
    (m >>= f) s = f a s' := by
  show EStateM.bind m f s = _
  unfold EStateM.bind
  rw [hm]

theorem bind_error {f : α → EStateM ε σ β} {e : ε} {s' : σ} (hm : m s = .error e s') :
    (m >>= f) s = .error e s' := by
  show EStateM.bind m f s = _
  unfold EStateM.bind
  rw [hm]

theorem Ensures.mono (h : Ensures m s Q E) (hQ : ∀ a s', Q a s' → Q' a s')
    (hE : ∀ e s', E e s' → E' e s') : Ensures m s Q' E' := by
  unfold Ensures at *
  cases hm : m s with
  | ok a s' =>
      rw [hm] at h
      exact hQ a s' h
  | error e s' =>
      rw [hm] at h
      exact hE e s' h

theorem Ensures.and (h : Ensures m s Q E) (h' : Ensures m s Q' E') :
    Ensures m s (fun a s' => Q a s' ∧ Q' a s') (fun e s' => E e s' ∧ E' e s') := by
  unfold Ensures at *
  cases hm : m s <;> rw [hm] at h h' <;> exact ⟨h, h'⟩

@[simp] theorem ensures_throw {e : ε} :
    Ensures (throw e : EStateM ε σ α) s Q E ↔ E e s := Iff.rfl

@[simp] theorem ensures_get {Q : σ → σ → Prop} :
    Ensures (get : EStateM ε σ σ) s Q E ↔ Q s s := Iff.rfl

@[simp] theorem ensures_set {s' : σ} {Q : PUnit → σ → Prop} :
    Ensures (set s' : EStateM ε σ PUnit) s Q E ↔ Q ⟨⟩ s' := Iff.rfl

@[simp] theorem ensures_modify {f : σ → σ} {Q : PUnit → σ → Prop} :
    Ensures (modify f : EStateM ε σ PUnit) s Q E ↔ Q ⟨⟩ (f s) := Iff.rfl

@[simp] theorem ensures_modifyGet {f : σ → α × σ} :
    Ensures (modifyGet f : EStateM ε σ α) s Q E ↔ Q (f s).1 (f s).2 := Iff.rfl

@[simp] theorem ensures_bind {f : α → EStateM ε σ β} {Q : β → σ → Prop} :
    Ensures (m >>= f) s Q E ↔ Ensures m s (fun a s' => Ensures (f a) s' Q E) E := by
  unfold Ensures
  show (match EStateM.bind m f s with | .ok a s' => Q a s' | .error e s' => E e s') ↔ _
  unfold EStateM.bind
  cases m s <;> rfl

@[simp] theorem ensures_map {f : α → β} {Q : β → σ → Prop} :
    Ensures (f <$> m) s Q E ↔ Ensures m s (fun a s' => Q (f a) s') E := by
  unfold Ensures
  show (match EStateM.map f m s with | .ok a s' => Q a s' | .error e s' => E e s') ↔ _
  unfold EStateM.map
  cases m s <;> rfl

theorem Ensures.bind {M : α → σ → Prop} {f : α → EStateM ε σ β} {Q : β → σ → Prop}
    (h : Ensures m s M E) (hf : ∀ a s', M a s' → Ensures (f a) s' Q E) :
    Ensures (m >>= f) s Q E :=
  ensures_bind.mpr (h.mono hf fun _ _ => id)

/-- What comes behind a failure does not run. -/
theorem Ensures.bind_fails {f : α → EStateM ε σ β} {Q : β → σ → Prop}
    (h : Ensures m s (fun _ _ => False) E) : Ensures (m >>= f) s Q E :=
  h.bind fun _ _ => False.elim

/-- The run of `m` from `s` ends in a state, with a failure or without one. -/
def Yields (m : EStateM ε σ Unit) (s : σ) : Option ε → σ → Prop
  | none, s' => m s = .ok () s'
  | some e, s' => m s = .error e s'

theorem Yields.of_error {m : EStateM ε σ Unit} {e : Option ε} {e₁ : ε} {s' s₁ : σ}
    (hm : Yields m s e s') (h : m s = .error e₁ s₁) : e = some e₁ ∧ s' = s₁ := by
  cases e with
  | none =>
      rw [Yields, h] at hm
      cases hm
  | some e =>
      rw [Yields, h] at hm
      cases hm
      exact ⟨rfl, rfl⟩

theorem Ensures.of_yields {m : EStateM ε σ Unit} {Q : Unit → σ → Prop} {e : Option ε} {s' : σ}
    (h : Ensures m s Q E) (hm : Yields m s e s') : e.elim (Q () s') (E · s') := by
  cases e with
  | none => exact (ensures_ok hm).mp h
  | some e => exact (ensures_error hm).mp h

/-! ## A program on a part of the state -/

/-- Run `m` on the part `get s` of the state and store the part back; `fault`
translates its failures. -/
def zoom {δ : Type} (get : σ → τ) (put : τ → σ → σ) (fault : δ → ε) (m : EStateM δ τ α) :
    EStateM ε σ α := fun s =>
  match m (get s) with
  | .ok a t => .ok a (put t s)
  | .error e t => .error (fault e) (put t s)

@[simp] theorem ensures_zoom {δ : Type} {get : σ → τ} {put : τ → σ → σ} {fault : δ → ε}
    {m : EStateM δ τ α} :
    Ensures (zoom get put fault m) s Q E ↔
      Ensures m (get s) (fun a t => Q a (put t s)) (fun e t => E (fault e) (put t s)) := by
  unfold Ensures zoom
  cases m (get s) <;> rfl

/-! ## Relations that programs stay in -/

/-- Every run of `m` from `s`, failing or not, goes a step of `R`. -/
def Within (R : σ → σ → Prop) (m : EStateM ε σ α) (s : σ) : Prop :=
  Ensures m s (fun _ => R s) (fun _ => R s)

section

variable {R : σ → σ → Prop}

theorem within_pure [Std.Refl R] {a : α} : Within R (pure a : EStateM ε σ α) s :=
  Std.Refl.refl s

theorem within_throw [Std.Refl R] {e : ε} : Within R (throw e : EStateM ε σ α) s :=
  Std.Refl.refl s

theorem within_modify {f : σ → σ} (h : R s (f s)) :
    Within R (modify f : EStateM ε σ PUnit) s := h

theorem within_modifyGet {f : σ → α × σ} (h : R s (f s).2) :
    Within R (modifyGet f : EStateM ε σ α) s := h

/-- A program that begins by looking at the state. -/
theorem within_get {f : σ → EStateM ε σ α} (h : Within R (f s) s) : Within R (get >>= f) s := h

theorem Within.bind [IsTrans σ R] {f : α → EStateM ε σ β} (h : Within R m s)
    (hf : ∀ a s', R s s' → Within R (f a) s') : Within R (m >>= f) s :=
  Ensures.bind h fun a s' hs' => (hf a s' hs').mono
    (fun _ _ hs'' => IsTrans.trans _ _ _ hs' hs'') (fun _ _ hs'' => IsTrans.trans _ _ _ hs' hs'')

theorem Within.map {f : α → β} (h : Within R m s) : Within R (f <$> m) s :=
  ensures_map.mpr h

theorem Within.of_yields {m : EStateM ε σ Unit} {e : Option ε} {s' : σ} (h : Within R m s)
    (hm : Yields m s e s') : R s s' := by
  have := Ensures.of_yields h hm
  cases e <;> exact this

theorem within_zoom {δ : Type} {get : σ → τ} {put : τ → σ → σ} {fault : δ → ε}
    {m : EStateM δ τ α} {T : τ → τ → Prop} (h : Within T m (get s))
    (hput : ∀ t, T (get s) t → R s (put t s)) : Within R (zoom get put fault m) s :=
  ensures_zoom.mpr (h.mono (fun _ _ ht => hput _ ht) fun _ _ ht => hput _ ht)

end

/-! ## Invariants that programs keep -/

/-- From a state with the invariant `I`, `m` gets to one with it, if it does not fail, and what
it returns has `V`. -/
def Keeps (I : σ → Prop) (V : α → Prop) (m : EStateM ε σ α) : Prop :=
  ∀ s, I s → Ensures m s (fun a s' => I s' ∧ V a) fun _ _ => True

section

variable {I : σ → Prop} {V V' : α → Prop} {W : β → Prop}

theorem keeps_pure {a : α} (h : V a) : Keeps I V (pure a : EStateM ε σ α) := fun _ hs => ⟨hs, h⟩

theorem keeps_throw {e : ε} : Keeps I V (throw e : EStateM ε σ α) := fun _ _ => trivial

theorem keeps_get {V : σ → Prop} (h : ∀ s, I s → V s) : Keeps I V (get : EStateM ε σ σ) :=
  fun s hs => ⟨hs, h s hs⟩

theorem keeps_modify {f : σ → σ} (h : ∀ s, I s → I (f s)) :
    Keeps I (fun _ => True) (modify f : EStateM ε σ PUnit) := fun s hs => ⟨h s hs, trivial⟩

theorem keeps_modifyGet {f : σ → α × σ} (h : ∀ s, I s → I (f s).2 ∧ V (f s).1) :
    Keeps I V (modifyGet f : EStateM ε σ α) := h

theorem Keeps.bind {f : α → EStateM ε σ β} (h : Keeps I V m) (hf : ∀ a, V a → Keeps I W (f a)) :
    Keeps I W (m >>= f) :=
  fun s hs => Ensures.bind (h s hs) fun a s' hs' => hf a hs'.2 s' hs'.1

theorem Keeps.map {f : α → β} (h : Keeps I V m) (hf : ∀ a, V a → W (f a)) : Keeps I W (f <$> m) :=
  fun s hs => ensures_map.mpr ((h s hs).mono (fun a _ hs' => ⟨hs'.1, hf a hs'.2⟩) fun _ _ => id)

theorem Keeps.ite {p : Prop} [Decidable p] {m' : EStateM ε σ α} (h : p → Keeps I V m)
    (h' : ¬ p → Keeps I V m') : Keeps I V (if p then m else m') := by
  split
  · rename_i hp
    exact h hp
  · rename_i hp
    exact h' hp

theorem keeps_foldlM {f : β → α → EStateM ε σ β} {as : List α} {b : β} (hb : W b)
    (hf : ∀ a ∈ as, ∀ b, W b → Keeps I W (f b a)) : Keeps I W (as.foldlM f b) := by
  induction as generalizing b with
  | nil => exact keeps_pure hb
  | cons a as ih =>
      rw [List.foldlM_cons]
      refine (hf a List.mem_cons_self b hb).bind fun b' hb' => ?_
      exact ih hb' fun a ha => hf a (List.mem_cons_of_mem _ ha)

theorem keeps_zoom {δ : Type} {get : σ → τ} {put : τ → σ → σ} {fault : δ → ε}
    {m : EStateM δ τ α} {J : τ → Prop} (h : Keeps J V m) (hget : ∀ s, I s → J (get s))
    (hput : ∀ s t, I s → J t → I (put t s)) : Keeps I V (zoom get put fault m) :=
  fun s hs => ensures_zoom.mpr ((h _ (hget s hs)).mono
    (fun _ t ht => ⟨hput s t hs ht.1, ht.2⟩) fun _ _ => id)

end

/-! ## Paths -/

/-- `E e s₁ s'` says how the program failed: it got to `s₁` by steps of `R`, and from
there to the failure `e` and the state `s'`. -/
def Leads (R : σ → σ → Prop) (m : EStateM ε σ α) (s : σ) (Q : α → σ → Prop)
    (E : ε → σ → σ → Prop) : Prop :=
  Ensures m s (fun a s' => ReflTransGen R s s' ∧ Q a s')
    (fun e s' => ∃ s₁, ReflTransGen R s s₁ ∧ E e s₁ s')

variable {R : σ → σ → Prop} {F F' : ε → σ → σ → Prop}

theorem Leads.mono (h : Leads R m s Q F) (hQ : ∀ a s', ReflTransGen R s s' → Q a s' → Q' a s')
    (hF : ∀ e s₁ s', F e s₁ s' → F' e s₁ s') : Leads R m s Q' F' :=
  Ensures.mono h (fun a s' h => ⟨h.1, hQ a s' h.1 h.2⟩)
    (fun e s' ⟨s₁, hpath, h⟩ => ⟨s₁, hpath, hF e s₁ s' h⟩)

/-- A path of finer steps is a path. -/
theorem Leads.of_finer {R' : σ → σ → Prop} (hstep : ∀ s s', R s s' → R' s s')
    (h : Leads R m s Q F) : Leads R' m s Q F :=
  Ensures.mono h (fun _ _ h => ⟨ReflTransGen.mono hstep _ _ h.1, h.2⟩)
    (fun _ _ ⟨s₁, hpath, h⟩ => ⟨s₁, ReflTransGen.mono hstep _ _ hpath, h⟩)

theorem leads_pure {a : α} (h : Q a s) : Leads R (pure a : EStateM ε σ α) s Q F :=
  ⟨.refl, h⟩

theorem leads_throw {e : ε} (h : F e s s) : Leads R (throw e : EStateM ε σ α) s Q F :=
  ⟨s, .refl, h⟩

/-- A program whose whole effect is a path with the postcondition. -/
theorem Leads.of_ensures
    (h : Ensures m s (fun a s' => ReflTransGen R s s' ∧ Q a s') fun e s' => F e s s') :
    Leads R m s Q F :=
  h.mono (fun _ _ => id) fun _ _ h => ⟨s, .refl, h⟩

/-- A program that starts behind a path still leads along the whole path. -/
theorem Leads.after {s₀ : σ} (hpath : ReflTransGen R s₀ s) (h : Leads R m s Q F) :
    Ensures m s (fun a s' => ReflTransGen R s₀ s' ∧ Q a s')
      (fun e s' => ∃ s₁, ReflTransGen R s₀ s₁ ∧ F e s₁ s') :=
  Ensures.mono h (fun _ _ h => ⟨hpath.trans h.1, h.2⟩)
    (fun _ _ ⟨s₁, hrest, h⟩ => ⟨s₁, hpath.trans hrest, h⟩)

theorem Leads.bind {M : α → σ → Prop} {f : α → EStateM ε σ β} {Q : β → σ → Prop}
    (h : Leads R m s M F)
    (hf : ∀ a s', ReflTransGen R s s' → M a s' → Leads R (f a) s' Q F) :
    Leads R (m >>= f) s Q F :=
  Ensures.bind h fun a s' h => (hf a s' h.1 h.2).after h.1

/-- What every step keeps, every path keeps. -/
theorem invariant_path {I : σ → Prop} (hstep : ∀ s s', R s s' → I s → I s') {s s' : σ}
    (hpath : ReflTransGen R s s') (h : I s) : I s' := by
  induction hpath with
  | refl => exact h
  | tail _ hlast ih => exact hstep _ _ hlast ih

end Foundations
