import Mathlib.Data.List.Lex

/-!
# Finite maps in the order of their keys

A map is the list of its entries, by increasing key, so that it is iterated over
in this order and two maps with the same entries are equal.
-/

namespace Foundations

structure SortedMap (α β : Type*) [LT α] where
  pairs : List (α × β)
  sorted : pairs.Pairwise fun a b => a.1 < b.1

namespace SortedMap

variable {α β : Type*} [LT α]

@[ext] theorem ext {m m' : SortedMap α β} (h : m.pairs = m'.pairs) : m = m' := by
  cases m
  cases m'
  cases h
  rfl

def empty : SortedMap α β := ⟨[], .nil⟩

def get? [BEq α] (m : SortedMap α β) (k : α) : Option β := m.pairs.lookup k

theorem lookup_cons {α β : Type*} [BEq α] [LawfulBEq α] [DecidableEq α] (p : α × β)
    (ps : List (α × β)) (k : α) :
    (p :: ps).lookup k = if k = p.1 then some p.2 else ps.lookup k := by
  rw [show p :: ps = (p.1, p.2) :: ps from rfl, List.lookup_cons]
  by_cases hk : k = p.1
  · rw [if_pos hk, beq_iff_eq.mpr hk]
  · rw [if_neg hk, beq_eq_false_iff_ne.mpr hk]

section

variable [Std.Irrefl fun a b : α => a < b]

theorem lookup_above [BEq α] [LawfulBEq α] {k : α} {ps : List (α × β)}
    (h : ∀ p ∈ ps, k < p.1) : ps.lookup k = none := by
  refine List.lookup_eq_none_iff.mpr fun p hp => ?_
  rw [bne_iff_ne]
  rintro rfl
  exact Std.Irrefl.irrefl _ (h p hp)

theorem nodup_pairs (m : SortedMap α β) : m.pairs.Nodup := by
  refine m.sorted.imp ?_
  rintro a _ hless rfl
  exact Std.Irrefl.irrefl _ hless

variable [BEq α] [LawfulBEq α]

theorem get?_eq_some {m : SortedMap α β} {k : α} {v : β} :
    m.get? k = some v ↔ (k, v) ∈ m.pairs := by
  unfold get?
  rw [List.lookup_eq_some_iff, List.mem_iff_append]
  refine exists_congr fun l => exists_congr fun l' => ⟨And.left, fun hpairs => ⟨hpairs, ?_⟩⟩
  intro p hp
  have hsorted := m.sorted
  rw [hpairs] at hsorted
  have hless : p.1 < k := (List.pairwise_append.mp hsorted).2.2 p hp _ List.mem_cons_self
  rw [bne_iff_ne]
  rintro rfl
  exact Std.Irrefl.irrefl _ hless

/-- A map is what is found in it. -/
theorem get?_injective [Trans (fun a b : α => a < b) (fun a b => a < b) (fun a b => a < b)] :
    Function.Injective (get? : SortedMap α β → α → Option β) := by
  intro m m' h
  have hmem : ∀ p, p ∈ m.pairs ↔ p ∈ m'.pairs := by
    rintro ⟨k, v⟩
    rw [← get?_eq_some, ← get?_eq_some, h]
  have hperm : m.pairs.Perm m'.pairs :=
    (List.perm_ext_iff_of_nodup m.nodup_pairs m'.nodup_pairs).mpr hmem
  refine ext (hperm.eq_of_pairwise (fun a b _ _ hless hless' => ?_) m.sorted m'.sorted)
  exact absurd (Std.lt_trans hless hless') (Std.Irrefl.irrefl _)

end

variable [DecidableLT α] [DecidableEq α]

/-- An entry of the key that is there already is replaced. -/
def insertPair (k : α) (v : β) : List (α × β) → List (α × β)
  | [] => [(k, v)]
  | p :: rest =>
      if k < p.1 then (k, v) :: p :: rest
      else if k = p.1 then (k, v) :: rest
      else p :: insertPair k v rest

variable {k : α} {v : β} {l : List (α × β)}

theorem mem_insertPair {p : α × β} (h : p ∈ insertPair k v l) : p = (k, v) ∨ p ∈ l := by
  induction l with
  | nil => exact Or.inl (List.mem_singleton.mp h)
  | cons q l ih =>
      unfold insertPair at h
      split at h
      · exact List.mem_cons.mp h
      · split at h
        · rcases List.mem_cons.mp h with rfl | h
          · exact Or.inl rfl
          · exact Or.inr (List.mem_cons_of_mem q h)
        · rcases List.mem_cons.mp h with rfl | h
          · exact Or.inr List.mem_cons_self
          · exact (ih h).imp id (List.mem_cons_of_mem q)

theorem insertPair_sorted [Std.Trichotomous fun a b : α => a < b]
    [Trans (fun a b : α => a < b) (fun a b => a < b) (fun a b => a < b)]
    (h : l.Pairwise fun a b => a.1 < b.1) :
    (insertPair k v l).Pairwise fun a b => a.1 < b.1 := by
  induction l with
  | nil => exact List.pairwise_singleton _ _
  | cons p l ih =>
      obtain ⟨hp, hl⟩ := List.pairwise_cons.mp h
      unfold insertPair
      split
      · rename_i hless
        refine List.pairwise_cons.mpr ⟨fun q hq => ?_, h⟩
        rcases List.mem_cons.mp hq with rfl | hq
        · exact hless
        · exact Std.lt_trans hless (hp q hq)
      · split
        · rename_i heq
          exact List.pairwise_cons.mpr ⟨fun q hq => heq ▸ hp q hq, hl⟩
        · rename_i hnot hne
          refine List.pairwise_cons.mpr ⟨fun q hq => ?_, ih hl⟩
          rcases mem_insertPair hq with rfl | hq
          · rcases Std.lt_trichotomy k p.1 with hless | heq | hmore
            · exact absurd hless hnot
            · exact absurd heq hne
            · exact hmore
          · exact hp q hq

theorem lookup_insertPair [BEq α] [LawfulBEq α] (k : α) (v : β) (l : List (α × β)) (x : α) :
    (insertPair k v l).lookup x = if x = k then some v else l.lookup x := by
  induction l with
  | nil => exact lookup_cons (k, v) [] x
  | cons p l ih =>
      unfold insertPair
      split
      · exact lookup_cons (k, v) _ x
      · split
        · rename_i heq
          rw [lookup_cons, lookup_cons]
          by_cases hx : x = k
          · rw [if_pos hx, if_pos hx]
          · rw [if_neg hx, if_neg hx, if_neg (heq ▸ hx)]
        · rename_i hne
          rw [lookup_cons, lookup_cons, ih]
          by_cases hx : x = p.1
          · rw [if_pos hx, if_pos hx, if_neg]
            rintro rfl
            exact hne hx
          · rw [if_neg hx, if_neg hx]

variable [Std.Trichotomous fun a b : α => a < b]
  [Trans (fun a b : α => a < b) (fun a b => a < b) (fun a b => a < b)]

def set (m : SortedMap α β) (k : α) (v : β) : SortedMap α β :=
  ⟨insertPair k v m.pairs, insertPair_sorted m.sorted⟩

/-- The last value that is stored wins. -/
theorem get?_set [BEq α] [LawfulBEq α] (m : SortedMap α β) (k : α) (v : β) (x : α) :
    (m.set k v).get? x = if x = k then some v else m.get? x :=
  lookup_insertPair k v m.pairs x

end SortedMap

end Foundations
