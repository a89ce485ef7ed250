import Mathlib.Data.List.Basic
import Mathlib.Order.Defs.PartialOrder

/-!
# Trees of files

A tree of directories, files and symbolic links, with names of any type. An
entry is known by its place, the names from the entry up to the root. `walk`
follows the steps of a path from a place, through every link on the way, as long
as the number of links that may be followed lasts; `Walks` says the same as a
relation.

A tree gets smaller by `remove`. In a smaller tree a walk fails or ends where it
ended before (`Walks.mono`).
-/

namespace Foundations

variable {α : Type*}

inductive PathStep (α : Type*) where
  | here
  | up
  | down (name : α)

inductive FileNode (α : Type*) where
  | dir
  | file
  | link (fromRoot : Bool) (target : List (PathStep α))

structure FileTree (α : Type*) where
  /-- what is at a place, if there is something -/
  node : List α → Option (FileNode α)
  /-- the entries of a directory, in the order in which they are listed -/
  names : List α → List α
  depth : Nat
  root : node [] = some .dir
  parent : ∀ {name place}, node (name :: place) ≠ none → node place = some .dir
  mem_names : ∀ {name place}, name ∈ names place ↔ node (name :: place) ≠ none
  length_le_depth : ∀ {place}, node place ≠ none → place.length ≤ depth

namespace FileTree

variable {t t' : FileTree α}

def isDir (t : FileTree α) (place : List α) : Bool :=
  match t.node place with
  | some .dir => true
  | _ => false

theorem isDir_iff {place : List α} : t.isDir place = true ↔ t.node place = some .dir := by
  unfold isDir
  split
  · rename_i h
    exact iff_of_true rfl h
  · rename_i h
    exact iff_of_false Bool.false_ne_true h

/-- An entry with nothing below it. -/
def IsLeaf (t : FileTree α) (place : List α) : Prop :=
  t.node place ≠ none ∧ t.names place = []

/-- Only directories have entries. -/
theorem names_eq_nil {place : List α} (h : t.node place ≠ some .dir) : t.names place = [] := by
  rw [List.eq_nil_iff_forall_not_mem]
  intro name hmem
  exact h (t.parent (t.mem_names.mp hmem))

/-! ## Building trees -/

/-- Nothing but the root. -/
def empty : FileTree α where
  node
    | [] => some .dir
    | _ :: _ => none
  names _ := []
  depth := 0
  root := rfl
  parent h := absurd rfl h
  mem_names := by simp
  length_le_depth := by
    intro place h
    cases place with
    | nil => exact Nat.le_refl 0
    | cons => exact absurd rfl h

section

variable [DecidableEq α]

/-- A new entry, in a directory that has none of this name. -/
def add (t : FileTree α) (name : α) (place : List α) (n : FileNode α) : FileTree α :=
  if hnew : t.isDir place = true ∧ name ∉ t.names place then
    { node := fun p => if p = name :: place then some n else t.node p
      names := fun p => if p = place then t.names p ++ [name] else t.names p
      depth := max t.depth (place.length + 1)
      root := by
        rw [if_neg (List.cons_ne_nil name place).symm]
        exact t.root
      parent := by
        have hfresh : t.node (name :: place) = none := by
          by_contra hold
          exact hnew.2 (t.mem_names.mpr hold)
        intro name' place' h
        have hdir : t.node place' = some .dir := by
          by_cases hentry : name' :: place' = name :: place
          · rw [(List.cons.inj hentry).2]
            exact isDir_iff.mp hnew.1
          · rw [if_neg hentry] at h
            exact t.parent h
        rw [if_neg (by rintro rfl; cases hfresh.symm.trans hdir)]
        exact hdir
      mem_names := by
        intro name' place'
        by_cases hplace : place' = place
        · subst hplace
          rw [if_pos rfl, List.mem_append, List.mem_singleton, t.mem_names]
          by_cases hname : name' = name
          · simp [hname]
          · simp [hname]
        · rw [if_neg hplace, if_neg (fun h => hplace (List.cons.inj h).2)]
          exact t.mem_names
      length_le_depth := by
        intro p h
        by_cases hentry : p = name :: place
        · rw [hentry]
          exact Nat.le_max_right _ _
        · rw [if_neg hentry] at h
          exact Nat.le_trans (t.length_le_depth h) (Nat.le_max_left _ _) }
  else t

end

/-! ## Smaller trees -/

instance : Preorder (FileTree α) where
  le t' t := ∀ place n, t'.node place = some n → t.node place = some n
  le_refl _ _ _ := id
  le_trans _ _ _ h h' place n hn := h' place n (h place n hn)

theorem node_ne_none_of_le (hle : t' ≤ t) {place : List α} (h : t'.node place ≠ none) :
    t.node place ≠ none := by
  obtain ⟨n, hn⟩ := Option.ne_none_iff_exists'.mp h
  rw [hle place n hn]
  exact Option.some_ne_none n

section

variable [DecidableEq α]

/-- The tree without an entry that has nothing below it. -/
def without (t : FileTree α) (name : α) (place : List α) (hleaf : t.names (name :: place) = []) :
    FileTree α where
  node p := if p = name :: place then none else t.node p
  names p := if p = place then (t.names p).filter (· ≠ name) else t.names p
  depth := t.depth
  root := by
    rw [if_neg (List.cons_ne_nil name place).symm]
    exact t.root
  parent := by
    intro name' place' h
    have hold : t.node (name' :: place') ≠ none := fun hnone => h (by rw [hnone, ite_self])
    have hother : place' ≠ name :: place := by
      rintro rfl
      exact List.not_mem_nil (hleaf ▸ t.mem_names.mpr hold)
    rw [if_neg hother]
    exact t.parent hold
  mem_names := by
    intro name' place'
    by_cases hplace : place' = place
    · rw [if_pos hplace, hplace, List.mem_filter, t.mem_names]
      by_cases hname : name' = name
      · simp [hname]
      · simp [hname]
    · rw [if_neg hplace, if_neg (fun h => hplace (List.cons.inj h).2)]
      exact t.mem_names
  length_le_depth := by
    intro p h
    exact t.length_le_depth fun hnone => h (by rw [hnone, ite_self])

/-- An entry with nothing below it is taken away; the root stays. -/
def remove (t : FileTree α) : List α → FileTree α
  | [] => t
  | name :: place =>
      if hleaf : t.names (name :: place) = [] then t.without name place hleaf else t

theorem node_remove {e : List α} (hleaf : t.names e = []) (hroot : e ≠ []) (place : List α) :
    (t.remove e).node place = if place = e then none else t.node place := by
  obtain ⟨name, parent, rfl⟩ := List.exists_cons_of_ne_nil hroot
  simp only [remove, dif_pos hleaf]
  rfl

theorem remove_cases (t : FileTree α) (e : List α) :
    t.remove e = t ∨ (t.names e = [] ∧ e ≠ []) := by
  cases e with
  | nil => exact .inl rfl
  | cons name place =>
      by_cases hleaf : t.names (name :: place) = []
      · exact .inr ⟨hleaf, List.cons_ne_nil _ _⟩
      · left
        simp only [remove, dif_neg hleaf]

theorem remove_le (t : FileTree α) (e : List α) : t.remove e ≤ t := by
  intro place n hn
  rcases t.remove_cases e with heq | ⟨hleaf, hroot⟩
  · rwa [heq] at hn
  · rw [node_remove hleaf hroot] at hn
    split at hn
    · cases hn
    · exact hn

/-- Nothing else goes. -/
theorem node_remove_of_ne {e place : List α} (hne : place ≠ e) :
    (t.remove e).node place = t.node place := by
  rcases t.remove_cases e with heq | ⟨hleaf, hroot⟩
  · rw [heq]
  · rw [node_remove hleaf hroot, if_neg hne]

end

/-! ## Above and below -/

/-- The entry of `d` on the way to something below it. -/
theorem exists_name_of_suffix {e d : List α} (he : t.node e ≠ none) (hd : d <:+ e) (hne : d ≠ e) :
    ∃ name ∈ t.names d, name :: d <:+ e := by
  induction e with
  | nil => exact absurd (List.suffix_nil.mp hd) hne
  | cons name place ih =>
      rcases List.suffix_cons_iff.mp hd with rfl | hd
      · exact absurd rfl hne
      · by_cases heq : d = place
        · subst heq
          exact ⟨name, t.mem_names.mpr he, List.suffix_refl _⟩
        · have hplace : t.node place ≠ none := t.parent he ▸ Option.some_ne_none _
          obtain ⟨name', hmem, hsuf⟩ := ih hplace hd heq
          exact ⟨name', hmem, hsuf.trans (List.suffix_cons name place)⟩

/-- Below everything there is something with nothing below it. -/
theorem exists_leaf {e : List α} (he : t.node e ≠ none) : ∃ e', e <:+ e' ∧ t.IsLeaf e' := by
  generalize hroom : t.depth - e.length = room
  induction room generalizing e with
  | zero =>
      refine ⟨e, List.suffix_refl e, he, ?_⟩
      rw [List.eq_nil_iff_forall_not_mem]
      intro name hmem
      have hdeep := t.length_le_depth (t.mem_names.mp hmem)
      rw [List.length_cons] at hdeep
      omega
  | succ room ih =>
      by_cases hleaf : t.names e = []
      · exact ⟨e, List.suffix_refl e, he, hleaf⟩
      · obtain ⟨name, rest, hnames⟩ := List.exists_cons_of_ne_nil hleaf
        have hchild := t.mem_names.mp (hnames ▸ List.mem_cons_self : name ∈ t.names e)
        obtain ⟨e', hsuf, hleaf'⟩ := ih hchild (by rw [List.length_cons]; omega)
        exact ⟨e', (List.suffix_cons name e).trans hsuf, hleaf'⟩

/-! ## Walks -/

/-- The steps up to the next link, which `follow` takes care of. -/
def walkWith (t : FileTree α) (links : Nat)
    (follow : List α → List (PathStep α) → Option (Nat × List α)) :
    List α → List (PathStep α) → Option (Nat × List α)
  | place, [] => some (links, place)
  | place, .here :: steps => if t.isDir place then walkWith t links follow place steps else none
  | place, .up :: steps => if t.isDir place then walkWith t links follow place.tail steps else none
  | place, .down name :: steps =>
      match t.node (name :: place) with
      | none => none
      | some (.link fromRoot target) => follow (if fromRoot then [] else place) (target ++ steps)
      | some _ => walkWith t links follow (name :: place) steps

/-- Where the steps lead to, with the number of links that may still be followed. -/
def walk (t : FileTree α) : (links : Nat) → List α → List (PathStep α) → Option (Nat × List α)
  | 0 => walkWith t 0 fun _ _ => none
  | links + 1 => walkWith t (links + 1) (walk t links)

inductive Walks (t : FileTree α) : Nat → List α → List (PathStep α) → Nat → List α → Prop
  | done (k : Nat) (place : List α) : Walks t k place [] k place
  | here {k k' : Nat} {place q : List α} {steps : List (PathStep α)}
      (hdir : t.node place = some .dir) (hrest : Walks t k place steps k' q) :
      Walks t k place (.here :: steps) k' q
  | up {k k' : Nat} {place q : List α} {steps : List (PathStep α)}
      (hdir : t.node place = some .dir) (hrest : Walks t k place.tail steps k' q) :
      Walks t k place (.up :: steps) k' q
  | down {k k' : Nat} {place q : List α} {steps : List (PathStep α)} {name : α} {n : FileNode α}
      (hnode : t.node (name :: place) = some n) (hreal : ∀ r s, n ≠ .link r s)
      (hrest : Walks t k (name :: place) steps k' q) :
      Walks t k place (.down name :: steps) k' q
  | link {k k' : Nat} {place q : List α} {steps target : List (PathStep α)} {name : α}
      {fromRoot : Bool} (hnode : t.node (name :: place) = some (.link fromRoot target))
      (hrest : Walks t k (if fromRoot then [] else place) (target ++ steps) k' q) :
      Walks t (k + 1) place (.down name :: steps) k' q

theorem walkWith_walks {k k' : Nat} {follow : List α → List (PathStep α) → Option (Nat × List α)}
    (hfollow : ∀ place steps q, follow place steps = some (k', q) →
      ∃ j, k = j + 1 ∧ Walks t j place steps k' q)
    {place q : List α} {steps : List (PathStep α)}
    (h : walkWith t k follow place steps = some (k', q)) : Walks t k place steps k' q := by
  induction steps generalizing place with
  | nil =>
      obtain ⟨rfl, rfl⟩ := Prod.mk.inj (Option.some.inj h)
      exact .done k place
  | cons step steps ih =>
      cases step with
      | here =>
          unfold walkWith at h
          split at h
          · rename_i hdir
            exact .here (isDir_iff.mp hdir) (ih h)
          · cases h
      | up =>
          unfold walkWith at h
          split at h
          · rename_i hdir
            exact .up (isDir_iff.mp hdir) (ih h)
          · cases h
      | down name =>
          unfold walkWith at h
          split at h
          · cases h
          · rename_i fromRoot target hnode
            obtain ⟨j, rfl, hwalks⟩ := hfollow _ _ _ h
            exact .link hnode hwalks
          · rename_i n hreal hnode
            exact .down hnode hreal (ih h)

theorem walk_iff {k k' : Nat} {place q : List α} {steps : List (PathStep α)} :
    t.walk k place steps = some (k', q) ↔ Walks t k place steps k' q := by
  constructor
  · intro h
    induction k generalizing place steps q with
    | zero => exact walkWith_walks (fun _ _ _ hrest => by cases hrest) h
    | succ k ih => exact walkWith_walks (fun _ _ _ hrest => ⟨k, rfl, ih hrest⟩) h
  · intro h
    induction h with
    | done k place => cases k <;> rfl
    | @here k k' place q steps hdir hrest ih =>
        cases k <;> exact (if_pos (isDir_iff.mpr hdir)).trans ih
    | @up k k' place q steps hdir hrest ih =>
        cases k <;> exact (if_pos (isDir_iff.mpr hdir)).trans ih
    | @down k k' place q steps name n hnode hreal hrest ih =>
        cases k <;> cases n with
        | dir | file =>
            unfold walk walkWith
            rw [hnode]
            exact ih
        | link fromRoot target => exact absurd rfl (hreal fromRoot target)
    | link hnode hrest ih =>
        unfold walk walkWith
        rw [hnode]
        exact ih

theorem Walks.unique {k k₁ k₂ : Nat} {place q₁ q₂ : List α} {steps : List (PathStep α)}
    (h₁ : Walks t k place steps k₁ q₁) (h₂ : Walks t k place steps k₂ q₂) :
    k₁ = k₂ ∧ q₁ = q₂ :=
  Prod.mk.inj (Option.some.inj ((walk_iff.mpr h₁).symm.trans (walk_iff.mpr h₂)))

/-- In a smaller tree a walk ends where it ended before. -/
theorem Walks.mono (hle : t' ≤ t) {k k' : Nat} {place q : List α} {steps : List (PathStep α)}
    (h : Walks t' k place steps k' q) : Walks t k place steps k' q := by
  induction h with
  | done k place => exact .done k place
  | here hdir _ ih => exact .here (hle _ _ hdir) ih
  | up hdir _ ih => exact .up (hle _ _ hdir) ih
  | down hnode hreal _ ih => exact .down (hle _ _ hnode) hreal ih
  | link hnode _ ih => exact .link (hle _ _ hnode) ih

theorem Walks.links_le {k k' : Nat} {place q : List α} {steps : List (PathStep α)}
    (h : Walks t k place steps k' q) : k' ≤ k := by
  induction h with
  | done => exact Nat.le_refl _
  | here _ _ ih | up _ _ ih | down _ _ _ ih => exact ih
  | link _ _ ih => exact Nat.le_succ_of_le ih

/-- More links may be followed, and are left over. -/
theorem Walks.more_links {k k' : Nat} {place q : List α} {steps : List (PathStep α)}
    (h : Walks t k place steps k' q) (more : Nat) :
    Walks t (k + more) place steps (k' + more) q := by
  induction h with
  | done k place => exact .done _ _
  | here hdir _ ih => exact .here hdir ih
  | up hdir _ ih => exact .up hdir ih
  | down hnode hreal _ ih => exact .down hnode hreal ih
  | link hnode _ ih =>
      rw [Nat.add_right_comm]
      exact .link hnode ih

/-- Where a walk ends does not depend on the number of links that may be followed. -/
theorem Walks.same_end {k k' j j' : Nat} {place q r : List α} {steps : List (PathStep α)}
    (h : Walks t k place steps k' q) (h' : Walks t j place steps j' r) : q = r := by
  have hj := h'.more_links k
  rw [Nat.add_comm j k] at hj
  exact ((h.more_links j).unique hj).2

theorem Walks.append {k k' k'' : Nat} {place q r : List α} {steps rest : List (PathStep α)}
    (h : Walks t k place steps k' q) (hrest : Walks t k' q rest k'' r) :
    Walks t k place (steps ++ rest) k'' r := by
  induction h with
  | done => exact hrest
  | here hdir _ ih => exact .here hdir (ih hrest)
  | up hdir _ ih => exact .up hdir (ih hrest)
  | down hnode hreal _ ih => exact .down hnode hreal (ih hrest)
  | link hnode _ ih =>
      refine .link hnode ?_
      have hih := ih hrest
      rw [List.append_assoc] at hih
      exact hih

theorem Walks.split {k k'' : Nat} {place r : List α} {steps rest : List (PathStep α)}
    (h : Walks t k place (steps ++ rest) k'' r) :
    ∃ k' q, Walks t k place steps k' q ∧ Walks t k' q rest k'' r := by
  generalize hall : steps ++ rest = all at h
  induction h generalizing steps with
  | done k place =>
      obtain ⟨rfl, rfl⟩ := List.append_eq_nil_iff.mp hall
      exact ⟨k, place, .done k place, .done k place⟩
  | @here k k'' place r tail hdir htail ih =>
      cases steps with
      | nil =>
          obtain rfl : rest = _ := hall
          exact ⟨k, place, .done _ place, .here hdir htail⟩
      | cons step steps =>
          obtain ⟨rfl, rfl⟩ := List.cons.inj hall
          obtain ⟨k', q, hfirst, hrest⟩ := ih rfl
          exact ⟨k', q, .here hdir hfirst, hrest⟩
  | @up k k'' place r tail hdir htail ih =>
      cases steps with
      | nil =>
          obtain rfl : rest = _ := hall
          exact ⟨k, place, .done _ place, .up hdir htail⟩
      | cons step steps =>
          obtain ⟨rfl, rfl⟩ := List.cons.inj hall
          obtain ⟨k', q, hfirst, hrest⟩ := ih rfl
          exact ⟨k', q, .up hdir hfirst, hrest⟩
  | @down k k'' place r tail name n hnode hreal htail ih =>
      cases steps with
      | nil =>
          obtain rfl : rest = _ := hall
          exact ⟨k, place, .done _ place, .down hnode hreal htail⟩
      | cons step steps =>
          obtain ⟨rfl, rfl⟩ := List.cons.inj hall
          obtain ⟨k', q, hfirst, hrest⟩ := ih rfl
          exact ⟨k', q, .down hnode hreal hfirst, hrest⟩
  | @link k k'' place r tail target name fromRoot hnode htail ih =>
      cases steps with
      | nil =>
          obtain rfl : rest = _ := hall
          exact ⟨k + 1, place, .done _ place, .link hnode htail⟩
      | cons step steps =>
          obtain ⟨rfl, rfl⟩ := List.cons.inj hall
          obtain ⟨k', q, hfirst, hrest⟩ := ih (List.append_assoc _ _ _)
          exact ⟨k', q, .link hnode hfirst, hrest⟩

/-- What a step down leads through is there. -/
theorem Walks.node_of_down {k k' : Nat} {place q : List α} {name : α} {rest : List (PathStep α)}
    (h : Walks t k place (.down name :: rest) k' q) : t.node (name :: place) ≠ none := by
  cases h with
  | down hnode => exact hnode ▸ Option.some_ne_none _
  | link hnode => exact hnode ▸ Option.some_ne_none _

end FileTree

end Foundations
