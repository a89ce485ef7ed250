import Negatus.FileSystem

/-!
# `rmdr` on a file system

`do_rmdr` of `CommandEventHandler.cpp` on real directories: it deletes what it
finds and goes into what `isDir` says is a directory.
-/

namespace Negatus

open Foundations

namespace Disk

variable (host : Host)

def isDir (path : Bytes) : EStateM Fault Disk Bytes := do
  match ← host.getFileInfo path with
  | some true => pure (str "TRUE")
  | _ => pure (str "FALSE")

def rm (path : Bytes) : EStateM Fault Disk Bytes := do
  if ← host.delete path then return str "removing file" ++ path
  return agentWarn (str "error: could not delete " ++ path)

/-- The loop over the entries, and what it appends to `out`. It ends as well where
`PR_ReadDir` fails. -/
def rmdrLoop (doRmdr : Bytes → EStateM Fault Disk Bytes) (path : Bytes) :
    List Bytes → EStateM Fault Disk Bytes
  | [] => pure []
  | entry :: entries => do
      if ← host.readDir then
        match Shell.joinPaths path entry with
        | .error e => throw (.crash e)
        | .ok p =>
            let out ← doRmdr p
            let rest ← rmdrLoop doRmdr path entries
            return out ++ rest
      return []

/-- The end of `do_rmdr`: the directory itself. -/
def removeDir (path out : Bytes) : EStateM Fault Disk Bytes := do
  let closed ← host.closeDir
  let out := if closed then out else out ++ str "error: could not close dir object" ++ endl
  let removed ← host.rmDir path
  return if removed then out else out ++ str "error: could not remove " ++ path ++ endl

/-- The entries of a directory, then the directory. -/
def rmdrDir (doRmdr : Bytes → EStateM Fault Disk Bytes) (path : Bytes) :
    EStateM Fault Disk Bytes := do
  match ← host.openDir path with
  | none => throw (.crash .nullDeref)     -- `PR_ReadDir(NULL)`
  | some entries =>
      let out ← rmdrLoop host doRmdr path entries
      removeDir host path out

/-- `do_rmdr`: what it appends to `out`. -/
def doRmdr : (fuel : Nat) → (path : Bytes) → EStateM Fault Disk Bytes
  | 0, _ => throw .outOfFuel
  | fuel + 1, path => do
      let ret ← isDir host path
      if ret ≠ str "TRUE" then
        if ret = str "FALSE" then
          let _ ← rm host path
          return []
        return ret
      rmdrDir host (doRmdr fuel) path

/-- The depth of the recursion: every level goes down in the tree or through a link. -/
def rmdrFuel (t : FileTree Name) : Nat := (host.maxLinks + 1) * (t.depth + 1) + 1

def rmdr : List Bytes → EStateM Fault Disk Bytes
  | [] => pure (agentWarnInvalidNumArgs 1)
  | path :: _ => do
      let disk ← get
      doRmdr host (rmdrFuel host disk.tree) path

/-! ## What one call does -/

section

variable {host} {disk : Disk} {path : Bytes} {Q : Bytes → Disk → Prop} {E : Fault → Disk → Prop}

/-- `isDir` says `TRUE` of a directory, if it may look. -/
theorem isDir_spec
    (hdir : ∀ q, host.denied (.getFileInfo path :: disk.calls) = false →
      host.dirAt disk.tree path = some q →
      Q (str "TRUE") ⟨disk.tree, .getFileInfo path :: disk.calls⟩)
    (hother : host.denied (.getFileInfo path :: disk.calls) = true ∨
      host.dirAt disk.tree path = none →
      Q (str "FALSE") ⟨disk.tree, .getFileInfo path :: disk.calls⟩) :
    Ensures (isDir host path) disk Q E := by
  unfold isDir
  rw [ensures_bind]
  apply Host.attempt_spec
  · exact fun hdenied => hother (.inl hdenied)
  · intro hrun
    unfold Host.dirAt at hdir hother
    cases hresolve : host.resolve disk.tree path with
    | none =>
        rw [hresolve] at hother
        exact hother (.inr rfl)
    | some q =>
        rw [hresolve, Option.filter_some] at hdir hother
        rw [Option.map_some]
        cases hq : disk.tree.isDir q with
        | true =>
            rw [hq] at hdir
            exact hdir q hrun rfl
        | false =>
            rw [hq] at hother
            exact hother (.inr rfl)

theorem rm_spec {Q : Disk → Prop}
    (hkept : host.denied (.delete path :: disk.calls) = true ∨
      host.unlinked disk.tree path = none → Q ⟨disk.tree, .delete path :: disk.calls⟩)
    (htaken : ∀ e, host.denied (.delete path :: disk.calls) = false →
      host.unlinked disk.tree path = some e →
      Q ⟨disk.tree.remove e, .delete path :: disk.calls⟩) :
    Ensures (rm host path) disk (fun _ => Q) E := by
  unfold rm
  rw [ensures_bind]
  exact Host.takeAway_spec hkept htaken

/-- `do_rmdr` on something else than a directory, and on a directory. -/
theorem doRmdr_spec {fuel : Nat}
    (hother : host.denied (.getFileInfo path :: disk.calls) = true ∨
      host.dirAt disk.tree path = none →
      Ensures (rm host path) ⟨disk.tree, .getFileInfo path :: disk.calls⟩ (fun _ => Q []) E)
    (hdir : ∀ q, host.denied (.getFileInfo path :: disk.calls) = false →
      host.dirAt disk.tree path = some q →
      Ensures (rmdrDir host (doRmdr host fuel) path)
        ⟨disk.tree, .getFileInfo path :: disk.calls⟩ Q E) :
    Ensures (doRmdr host (fuel + 1) path) disk Q E := by
  unfold doRmdr
  rw [ensures_bind]
  apply isDir_spec
  · intro q hrun hq
    rw [if_neg (by decide)]
    exact hdir q hrun hq
  · intro h
    rw [if_pos (by decide), if_pos rfl, ensures_bind]
    exact hother h

/-- The entries of a directory one after the other. -/
theorem rmdrLoop_spec {I : Disk → Prop} {E : Fault → Disk → Prop}
    {remove : Bytes → EStateM Fault Disk Bytes} {entries : List Name} (hpath : path ≠ [])
    (hread : ∀ disk, I disk → I ⟨disk.tree, .readDir :: disk.calls⟩)
    (hchild : ∀ name ∈ entries, ∀ disk, I disk →
      Ensures (remove (child path name)) disk (fun _ => I) E)
    {disk : Disk} (h : I disk) :
    Ensures (rmdrLoop host remove path (entries.map (·.1))) disk (fun _ => I) E := by
  induction entries generalizing disk with
  | nil => exact h
  | cons name entries ih =>
      obtain ⟨hname, hentries⟩ := List.forall_mem_cons.mp hchild
      rw [List.map_cons]
      unfold rmdrLoop
      rw [ensures_bind]
      apply Host.attempt_spec
      · exact fun _ => hread disk h
      · intro _
        rw [joinPaths_eq hpath name]
        refine Ensures.bind (hname _ (hread disk h)) fun out disk h => ?_
        exact Ensures.bind (ih hentries h) fun _ _ h => h

/-- The directory goes, or the reply says that it stays. -/
theorem removeDir_spec {Q : Bytes → Disk → Prop} {E : Fault → Disk → Prop} {out : Bytes}
    (hkept : ∀ out, host.denied (.rmDir path :: .closeDir :: disk.calls) = true ∨
      host.emptied disk.tree path = none →
        Q (out ++ str "error: could not remove " ++ path ++ endl)
          ⟨disk.tree, .rmDir path :: .closeDir :: disk.calls⟩)
    (htaken : ∀ out e, host.denied (.rmDir path :: .closeDir :: disk.calls) = false →
      host.emptied disk.tree path = some e →
        Q out ⟨disk.tree.remove e, .rmDir path :: .closeDir :: disk.calls⟩) :
    Ensures (removeDir host path out) disk Q E := by
  unfold removeDir
  rw [ensures_bind]
  have hrmDir : ∀ out : Bytes, Ensures (do
      let removed ← host.rmDir path
      return if removed then out else out ++ str "error: could not remove " ++ path ++ endl)
      ⟨disk.tree, .closeDir :: disk.calls⟩ Q E := by
    intro out
    rw [ensures_bind]
    exact Host.takeAway_spec (hkept out) (htaken out)
  exact Host.attempt_spec (fun _ => hrmDir _) fun _ => hrmDir _

/-- **What every call keeps, `do_rmdr` keeps.** `Good` says on which paths it is called,
and with which fuel. -/
theorem doRmdr_keeps (I : FileTree Name → Prop) (Good : Nat → Bytes → Prop) (E : Fault → Prop)
    (hfuel : ∀ path, Good 0 path → E .outOfFuel)
    (hdelete : ∀ fuel path t e calls, Good (fuel + 1) path → I t →
      host.denied (.delete path :: calls) = false → host.unlinked t path = some e → I (t.remove e))
    (hrmDir : ∀ fuel path t e calls, Good (fuel + 1) path → I t →
      host.denied (.rmDir path :: calls) = false → host.emptied t path = some e → I (t.remove e))
    (hopen : ∀ fuel path calls, Good (fuel + 1) path →
      host.denied (.openDir path :: calls) = true → E (.crash .nullDeref))
    (hchild : ∀ fuel path t q, Good (fuel + 1) path → I t → host.dirAt t path = some q →
      ∀ name ∈ t.names q, Good fuel (child path name))
    {fuel : Nat} {path : Bytes} (hgood : Good fuel path) {disk : Disk} (hI : I disk.tree) :
    Ensures (doRmdr host fuel path) disk (fun _ disk' => I disk'.tree)
      (fun e disk' => E e ∧ I disk'.tree) := by
  induction fuel generalizing path disk with
  | zero => exact ⟨hfuel path hgood, hI⟩
  | succ fuel ih =>
      apply doRmdr_spec
      · intro _
        exact rm_spec (fun _ => hI) fun e hrun he => hdelete fuel path _ e _ hgood hI hrun he
      · intro q hrun hq
        have hpath := (Host.dirAt_walks hq).1
        unfold rmdrDir
        rw [ensures_bind]
        apply Host.attempt_spec
        · exact fun hdenied => ⟨hopen fuel path _ hgood hdenied, hI⟩
        · intro _
          rw [hq]
          refine Ensures.bind (rmdrLoop_spec hpath (fun _ hI => hI) (fun name hname disk' hI' =>
            ih (hchild fuel path _ q hgood hI hq name hname) hI') hI) fun out disk' hI' => ?_
          exact removeDir_spec (fun _ _ => hI') fun _ e hrun he =>
            hrmDir fuel path _ e _ hgood hI' hrun he

end

/-! ## The frame -/

/-- The path itself, or below the directory that it means. -/
def Mine (host : Host) (t : FileTree Name) (path : Bytes) (e : List Name) : Prop :=
  host.entry t path = some e ∨ ∃ d, host.dirAt t path = some d ∧ d <:+ e ∧ e ≠ d

/-- Everything else is as it was. -/
def Confined (host : Host) (t : FileTree Name) (path : Bytes) (t' : FileTree Name) : Prop :=
  ∀ place, t'.node place = t.node place ∨ t'.node place = none ∧ Mine host t path place

/-- What there is below `x` with nothing below itself belongs to the path. -/
def OnlyMine (host : Host) (t : FileTree Name) (path : Bytes) (x : List Name) : Prop :=
  ∀ e, t.IsLeaf e → x <:+ e → e ≠ x → Mine host t path e

/-- No link in the directory leads out of it, to where something can be deleted. -/
def LinksStay (host : Host) (t : FileTree Name) (path : Bytes) : Prop :=
  ∀ k d, t.Walks host.maxLinks (host.start path) (steps path) k d → host.dirAt t path = some d →
    ∀ name q fromRoot target, d <:+ q → t.node (name :: q) = some (.link fromRoot target) →
      ∀ j x, t.Walks k q [.down name] j x → t.node x = some .dir → OnlyMine host t path x

section

variable {host : Host} {t t' : FileTree Name} {path p : Bytes} {e q : List Name}

/-- A path that `do_rmdr` is called with below the first one: the names behind it,
and the directory `q` of its entry. -/
structure Reached (host : Host) (t : FileTree Name) (path p : Bytes) (below : List Name)
    (name : Name) (k : Nat) (q : List Name) : Prop where
  ne_nil : p ≠ []
  start : host.start p = host.start path
  steps : steps p = (steps path ++ below.map .down) ++ [.down name]
  walks : t.Walks host.maxLinks (host.start path) (Negatus.steps path ++ below.map .down) k q
  onlyMine : OnlyMine host t path q

/-- What is left of the tree, and what has been taken away. -/
def Kept (host : Host) (t : FileTree Name) (path : Bytes) (t' : FileTree Name) : Prop :=
  t' ≤ t ∧ ∀ e, t.node e ≠ none → t'.node e = none → Mine host t path e

theorem Kept.confined (h : Kept host t path t') : Confined host t path t' := by
  intro place
  cases hplace : t'.node place with
  | some n => exact .inl (h.1 place n hplace).symm
  | none =>
      by_cases hold : t.node place = none
      · exact .inl hold.symm
      · exact .inr ⟨rfl, h.2 place hold hplace⟩

theorem Kept.remove (h : Kept host t path t') (he : Mine host t path e) :
    Kept host t path (t'.remove e) := by
  refine ⟨le_trans (t'.remove_le e) h.1, fun place hold hgone => ?_⟩
  by_cases heq : place = e
  · exact heq ▸ he
  · rw [FileTree.node_remove_of_ne heq] at hgone
    exact h.2 place hold hgone

theorem onlyMine_dirAt {d : List Name} (h : host.dirAt t path = some d) :
    OnlyMine host t path d :=
  fun _ _ hbelow hne => .inr ⟨d, h, hbelow, hne⟩

theorem OnlyMine.below {name : Name} (h : OnlyMine host t path q) :
    OnlyMine host t path (name :: q) := by
  intro e hleaf hbelow _
  refine h e hleaf ((List.suffix_cons name q).trans hbelow) ?_
  rintro rfl
  have hlen := hbelow.length_le
  rw [List.length_cons] at hlen
  omega

section

variable {below : List Name} {name : Name} {k : Nat} (hr : Reached host t path p below name k q)

/-- The walk to the entry goes through the directory of the first path. -/
theorem Reached.through (hle : t' ≤ t) (hwalks : t'.Walks host.maxLinks (host.start path)
      (Negatus.steps path ++ below.map .down) k q) {d : List Name} {j : Nat}
    (hd : t.Walks host.maxLinks (host.start path) (Negatus.steps path) j d) :
    t'.Walks host.maxLinks (host.start path) (Negatus.steps path) j d ∧
      t'.Walks j d (below.map .down) k q := by
  obtain ⟨j', d', hfirst, hrest⟩ := hwalks.split
  obtain ⟨rfl, rfl⟩ := (hfirst.mono hle).unique hd
  exact ⟨hfirst, hrest⟩

include hr

/-- In a smaller tree the entry is the same or there is none. -/
theorem Reached.entry_eq (hle : t' ≤ t) (he : host.entry t' p = some e) :
    e = name :: q ∧
      t'.Walks host.maxLinks (host.start path) (Negatus.steps path ++ below.map .down) k q := by
  obtain ⟨init, name', k', place, hsteps, hwalks, rfl⟩ := Host.entry_iff.mp he
  rw [hr.steps] at hsteps
  obtain ⟨rfl, hlast⟩ := List.append_inj' hsteps rfl
  rw [hr.start] at hwalks
  obtain ⟨rfl, rfl⟩ := (hwalks.mono hle).unique hr.walks
  obtain rfl : name = name' := by simpa using hlast
  exact ⟨rfl, hwalks⟩

/-- A file or a link that is deleted belongs to the path. -/
theorem Reached.unlinked_mine (hle : t' ≤ t) (he : host.unlinked t' p = some e) :
    Mine host t path e := by
  obtain ⟨hentry, hnode, hkind⟩ := Host.unlinked_entry he
  obtain ⟨rfl, -⟩ := hr.entry_eq hle hentry
  obtain ⟨n, hn⟩ := Option.ne_none_iff_exists'.mp hnode
  have hplain : t.node (name :: q) ≠ some .dir := by
    intro hdir
    rw [hle _ n hn] at hdir
    rw [FileTree.isDir_iff.mpr (hn.trans hdir)] at hkind
    cases hkind
  refine hr.onlyMine _ ⟨?_, FileTree.names_eq_nil hplain⟩ (List.suffix_cons name q) ?_
  · exact FileTree.node_ne_none_of_le hle hnode
  · exact List.cons_ne_self name q

/-- So does a directory that has become empty: the way to it leads through the directory
of the first path, which therefore is not below it. -/
theorem Reached.emptied_mine (hle : t' ≤ t) (he : host.emptied t' p = some e) :
    Mine host t path e := by
  obtain ⟨hentry, hdir, hempty⟩ := Host.emptied_entry he
  obtain ⟨heq, hwalks⟩ := hr.entry_eq hle hentry
  have hnothing : ∀ f, t'.node f ≠ none → e <:+ f → f = e := by
    intro f hf hbelow
    by_contra hne
    obtain ⟨n, hmem, -⟩ := FileTree.exists_name_of_suffix hf hbelow (Ne.symm hne)
    rw [hempty] at hmem
    cases hmem
  have hnode : t.node e ≠ none := FileTree.node_ne_none_of_le hle (hdir ▸ Option.some_ne_none _)
  -- the first tree had a file, a link or an empty directory below the place
  obtain ⟨leaf, hbelow, hleaf⟩ := t.exists_leaf hnode
  have hq : q <:+ leaf := (heq ▸ List.suffix_cons name q : q <:+ e).trans hbelow
  have hlonger : leaf ≠ q := by
    rintro rfl
    have hlen := hbelow.length_le
    rw [heq, List.length_cons] at hlen
    omega
  rcases hr.onlyMine leaf hleaf hq hlonger with hfirst | ⟨d, hd, hdleaf, hne⟩
  · -- the entry of the first path is still there
    obtain ⟨init, name₀, k₀, place, hsteps, hinit, rfl⟩ := Host.entry_iff.mp hfirst
    have hthere : t'.node (name₀ :: place) ≠ none := by
      rw [hsteps, List.append_assoc] at hwalks
      obtain ⟨k₁, place₁, hinit', hrest⟩ := hwalks.split
      obtain ⟨rfl, rfl⟩ := (hinit'.mono hle).unique hinit
      exact hrest.node_of_down
    exact .inl (hnothing _ hthere hbelow ▸ hfirst)
  · by_cases habove : e <:+ d
    · -- and so is something in its directory
      exfalso
      obtain ⟨-, -, j, hdwalks⟩ := Host.dirAt_walks hd
      obtain ⟨-, hrest⟩ := Reached.through hle hwalks hdwalks
      have hlen := habove.length_le
      cases below with
      | nil =>
          cases hrest
          rw [heq, List.length_cons] at hlen
          omega
      | cons n below =>
          have hthere := hrest.node_of_down
          have hsame := hnothing _ hthere (habove.trans (List.suffix_cons n d))
          rw [← hsame, List.length_cons] at hlen
          omega
    · right
      rcases List.suffix_or_suffix_of_suffix hdleaf hbelow with h | h
      · exact ⟨d, hd, h, fun heq => habove (heq ▸ List.suffix_refl _)⟩
      · exact absurd h habove

/-- What `do_rmdr` goes on with below a directory. -/
theorem Reached.child (hstay : LinksStay host t path) (hle : t' ≤ t) {x d : List Name}
    (hd : host.dirAt t path = some d) (hx : host.dirAt t' p = some x) (name' : Name) :
    ∃ k', Reached host t path (child p name') (below ++ [name]) name' k' x := by
  obtain ⟨hne, hdir, k', hwalks⟩ := Host.dirAt_walks hx
  have hxdir : t.node x = some .dir := hle x _ hdir
  have hwalks := hwalks.mono hle
  have hsteps : Negatus.steps p = Negatus.steps path ++ (below ++ [name]).map .down := by
    rw [hr.steps, List.map_append, List.append_assoc]
    rfl
  refine ⟨k', child_ne_nil, (Host.start_child hne name').trans hr.start, ?_, ?_, ?_⟩
  · rw [steps_child, hsteps]
  · rw [← hsteps, ← hr.start]
    exact hwalks
  · -- the last step: down in the tree, or through a link
    rw [hr.start, hr.steps] at hwalks
    obtain ⟨k₁, q₁, hfirst, hlast⟩ := hwalks.split
    obtain ⟨rfl, rfl⟩ := hfirst.unique hr.walks
    obtain ⟨-, -, j, hdwalks⟩ := Host.dirAt_walks hd
    obtain ⟨-, hbelow⟩ := Reached.through (le_refl t) hr.walks hdwalks
    cases hnode : t.node (name :: q₁) with
    | none => exact absurd hnode hlast.node_of_down
    | some n =>
        cases n with
        | link fromRoot target =>
            have hleaf : t.IsLeaf (name :: q₁) := by
              refine ⟨hnode ▸ Option.some_ne_none _, FileTree.names_eq_nil ?_⟩
              rw [hnode]
              exact nofun
            -- what the link leads to is not below the first path, unless it is itself reached by it
            have hmine := hr.onlyMine _ hleaf (List.suffix_cons name q₁) (List.cons_ne_self name q₁)
            rcases hmine with hfirst | ⟨d', hd', hinside, hne'⟩
            · -- the link that the first path itself is
              obtain ⟨init, name₀, k₀, place, hinit, hplace, heq⟩ := Host.entry_iff.mp hfirst
              obtain ⟨rfl, rfl⟩ := List.cons.inj heq
              rw [hinit] at hdwalks
              obtain ⟨j₀, place₀, hplace', hlast'⟩ := hdwalks.split
              obtain ⟨rfl, rfl⟩ := hplace'.unique hplace
              obtain rfl := hlast.same_end hlast'
              exact onlyMine_dirAt hd
            · -- a link inside the directory
              obtain rfl := Option.some.inj (hd'.symm.trans hd)
              have hq : d' <:+ q₁ := by
                rcases List.suffix_cons_iff.mp hinside with heq | h
                · exact absurd heq.symm hne'
                · exact h
              have hmore := hlast.more_links (j - k₁)
              rw [Nat.add_sub_cancel' hbelow.links_le] at hmore
              exact hstay j d' hdwalks hd name q₁ fromRoot target hq hnode _ x hmore hxdir
        | dir =>
            cases hlast with
            | down _ _ hrest =>
                cases hrest
                exact hr.onlyMine.below
            | link hlink => exact absurd (hlink.symm.trans hnode) (by simp)
        | file =>
            cases hlast with
            | down _ _ hrest =>
                cases hrest
                exact absurd (hxdir.symm.trans hnode) (by simp)
            | link hlink => exact absurd (hlink.symm.trans hnode) (by simp)

end

/-- The paths that `do_rmdr` is called with. -/
def Visited (host : Host) (t : FileTree Name) (path p : Bytes) : Prop :=
  p = path ∨ (∃ d, host.dirAt t path = some d) ∧
    ∃ below name k q, Reached host t path p below name k q

theorem Visited.child (hstay : LinksStay host t path) (h : Visited host t path p) (hle : t' ≤ t)
    {x : List Name} (hx : host.dirAt t' p = some x) (name : Name) :
    Visited host t path (child p name) := by
  rcases h with rfl | ⟨⟨d, hd⟩, below, name', k, q, hr⟩
  · have hxt := Host.dirAt_mono hle hx
    obtain ⟨hne, -, k, hwalks⟩ := Host.dirAt_walks hxt
    refine .inr ⟨⟨x, hxt⟩, [], name, k, x, child_ne_nil, Host.start_child hne name, ?_, ?_, ?_⟩
    · rw [steps_child, List.map_nil, List.append_nil]
    · rw [List.map_nil, List.append_nil]
      exact hwalks
    · exact onlyMine_dirAt hxt
  · obtain ⟨k', hr'⟩ := hr.child hstay hle hd hx name
    exact .inr ⟨⟨d, hd⟩, _, _, _, _, hr'⟩

/-- If links stay inside, whatever goes belongs to the path. -/
theorem doRmdr_confined (hstay : LinksStay host t path) (fuel : Nat) (calls : List DiskCall) :
    Ensures (doRmdr host fuel path) ⟨t, calls⟩ (fun _ disk => Kept host t path disk.tree)
      (fun _ disk => Kept host t path disk.tree) := by
  have hentry : ∀ {t' e}, t' ≤ t → host.entry t' path = some e → Mine host t path e := by
    intro t' e hle he
    obtain ⟨init, name, k, place, hsteps, hwalks, rfl⟩ := Host.entry_iff.mp he
    exact .inl (Host.entry_iff.mpr ⟨init, name, k, place, hsteps, hwalks.mono hle, rfl⟩)
  have hstart : Visited host t path path := .inl rfl
  have hkept : Kept host t path (Disk.mk t calls).tree :=
    ⟨le_refl t, fun e hold hgone => absurd hgone hold⟩
  refine (doRmdr_keeps (Kept host t path) (fun _ => Visited host t path) (fun _ => True)
    (fun _ _ => trivial) ?_ ?_ (fun _ _ _ _ _ => trivial) ?_ hstart hkept).mono
    (fun _ _ => id) fun _ _ h => h.2
  · rintro fuel p t' e calls (rfl | ⟨-, below, name, k, q, hr⟩) hkept - he
    · exact hkept.remove (hentry hkept.1 (Host.unlinked_entry he).1)
    · exact hkept.remove (hr.unlinked_mine hkept.1 he)
  · rintro fuel p t' e calls (rfl | ⟨-, below, name, k, q, hr⟩) hkept - he
    · exact hkept.remove (hentry hkept.1 (Host.emptied_entry he).1)
    · exact hkept.remove (hr.emptied_mine hkept.1 he)
  · exact fun fuel p t' q hvisited hkept hq name _ => hvisited.child hstay hkept.1 hq name

/-! ## The depth of the recursion -/

/-- Enough fuel for a path: each call goes down in the tree or through a link. -/
def Fits (host : Host) (t : FileTree Name) (fuel : Nat) (p : Bytes) : Prop :=
  0 < fuel ∧ ∀ k q, t.Walks host.maxLinks (host.start p) (steps p) k q →
    k * (t.depth + 1) + (t.depth - q.length) + 1 < fuel

theorem fits_rmdrFuel (p : Bytes) : Fits host t (rmdrFuel host t) p := by
  refine ⟨Nat.succ_pos _, fun k q hwalks => ?_⟩
  have hk : k * (t.depth + 1) ≤ host.maxLinks * (t.depth + 1) :=
    Nat.mul_le_mul_right _ hwalks.links_le
  unfold rmdrFuel
  rw [Nat.succ_mul]
  omega

theorem Fits.child {fuel : Nat} (h : Fits host t (fuel + 1) p) (hle : t' ≤ t) {x : List Name}
    (hx : host.dirAt t' p = some x) (name : Name) : Fits host t fuel (child p name) := by
  obtain ⟨hne, -, k, hwalks⟩ := Host.dirAt_walks hx
  have hwalks := hwalks.mono hle
  have hroom := h.2 k x hwalks
  refine ⟨by omega, fun k' q' hchild => ?_⟩
  rw [Host.start_child hne, steps_child] at hchild
  obtain ⟨k₁, x₁, hfirst, hlast⟩ := hchild.split
  obtain ⟨rfl, rfl⟩ := hfirst.unique hwalks
  cases hlast with
  | down hnode _ hrest =>
      cases hrest
      have hdeep := t.length_le_depth (hnode ▸ Option.some_ne_none _)
      rw [List.length_cons] at hdeep ⊢
      omega
  | link _ hrest =>
      have hk := Nat.mul_le_mul_right (t.depth + 1) hrest.links_le
      rw [Nat.succ_mul] at hroom
      omega

/-- **`do_rmdr` ends**, links that lead back included. -/
theorem doRmdr_ends {fuel : Nat} (hfits : Fits host t fuel p) {disk : Disk}
    (hle : disk.tree ≤ t) :
    Ensures (doRmdr host fuel p) disk (fun _ disk' => disk'.tree ≤ t)
      (fun e disk' => e = .crash .nullDeref ∧ disk'.tree ≤ t) := by
  refine doRmdr_keeps (· ≤ t) (Fits host t) (· = .crash .nullDeref) ?_ ?_ ?_
    (fun _ _ _ _ _ => rfl) ?_ hfits hle
  · exact fun p h => absurd h.1 (Nat.lt_irrefl 0)
  · exact fun _ _ t' e _ _ hle _ _ => le_trans (t'.remove_le e) hle
  · exact fun _ _ t' e _ _ hle _ _ => le_trans (t'.remove_le e) hle
  · exact fun _ _ _ _ h hle hq name _ => h.child hle hq name

end

/-! ## A call that reaches an entry -/

/-- Names that lead from a directory to an entry. -/
inductive Leads (t : FileTree Name) : Nat → List Name → List Name → List Name → Prop
  | last {k : Nat} {q : List Name} {name : Name} (hnode : t.node (name :: q) ≠ none) :
      Leads t k q [name] (name :: q)
  | more {k j : Nat} {q x names e : List Name} {name : Name}
      (hwalk : t.Walks k q [.down name] j x) (hdir : t.node x = some .dir)
      (hrest : Leads t j x names e) : Leads t k q (name :: names) e

section

variable {host : Host} {t t' : FileTree Name} {p : Bytes} {e q names : List Name} {k : Nat}

theorem Leads.down {below : List Name} (hdir : t.node (below ++ q) = some .dir)
    (h : Leads t k (below ++ q) names e) : Leads t k q (below.reverse ++ names) e := by
  induction below generalizing names with
  | nil => exact h
  | cons name below ih =>
      have hparent : t.node (below ++ q) = some .dir := t.parent (hdir ▸ Option.some_ne_none _)
      rw [List.reverse_cons, List.append_assoc]
      exact ih hparent (.more (.down hdir (fun _ _ => nofun) (.done k _)) hdir h)

/-- The path with the names behind it is one of the entry. -/
theorem Leads.entry (h : Leads t k q names e) (hp : p ≠ [])
    (hwalks : t.Walks host.maxLinks (host.start p) (steps p) k q) :
    host.entry t (names.foldl child p) = some e ∧
      steps (names.foldl child p) = steps p ++ names.map .down ∧
      names.foldl child p ≠ [] ∧ (names.foldl child p).getLast? ≠ some 47 ∧ names ≠ [] := by
  induction h generalizing p with
  | @last k q name hnode =>
      refine ⟨?_, steps_child, child_ne_nil, child_not_trailing, List.cons_ne_nil _ _⟩
      apply Host.entry_iff.mpr
      refine ⟨steps p, name, k, q, steps_child, ?_, rfl⟩
      rw [List.foldl_cons, List.foldl_nil, Host.start_child hp]
      exact hwalks
  | @more k j q x names e name hwalk hdir hrest ih =>
      have hchild : t.Walks host.maxLinks (host.start (child p name)) (steps (child p name)) j x := by
        rw [Host.start_child hp, steps_child]
        exact hwalks.append hwalk
      obtain ⟨hentry, hsteps, hne, hlast, -⟩ := ih child_ne_nil hchild
      refine ⟨hentry, ?_, hne, hlast, List.cons_ne_nil _ _⟩
      rw [List.foldl_cons, hsteps, steps_child, List.map_cons, List.append_assoc]
      rfl

theorem Leads.longer (h : Leads t k q names e) (hp : p ≠ [])
    (hwalks : t.Walks host.maxLinks (host.start p) (steps p) k q) :
    p ≠ names.foldl child p := by
  intro hsame
  obtain ⟨-, hsteps, -, -, hnames⟩ := h.entry hp hwalks
  rw [← hsame] at hsteps
  have hlen := congrArg List.length hsteps
  rw [List.length_append, List.length_map] at hlen
  exact hnames (List.length_eq_zero_iff.mp (by omega))

/-- Everything is denied that deletes something else than the target. Where that is no
directory, nobody may see what it leads to. -/
def onlyTarget (target : Bytes) (hidden : Bool) : List DiskCall → Bool
  | .delete p :: _ => p ≠ target
  | .rmDir p :: _ => p ≠ target
  | .getFileInfo p :: _ => hidden && p = target
  | _ => false

/-- An entry with nothing below it, and the calls that may delete it. -/
structure Target (host : Host) (t : FileTree Name) (target : Bytes) (e : List Name) : Prop where
  leaf : t.IsLeaf e
  entry : host.entry t target = some e
  not_trailing : target.getLast? ≠ some 47
  denied : host.denied = onlyTarget target (!t.isDir e)

variable {target : Bytes} (ht : Target host t target e)

include ht

theorem Target.ne_root : e ≠ [] := by
  obtain ⟨_, _, _, _, -, -, rfl⟩ := Host.entry_iff.mp ht.entry
  exact List.cons_ne_nil _ _

theorem Target.gone : (t.remove e).node e = none := by
  rw [FileTree.node_remove ht.leaf.2 ht.ne_root, if_pos rfl]

/-- The tree is as it was, or without the target. -/
theorem Target.remains (hle : t' = t ∨ t' = t.remove e) {e' : List Name}
    (hp : p = target) (he : host.entry t' p = some e') (hnode : t'.node e' ≠ none) :
    t'.remove e' = t ∨ t'.remove e' = t.remove e := by
  subst hp
  have hle' : t' ≤ t := by
    rcases hle with rfl | rfl
    · exact le_refl _
    · exact t.remove_le e
  have heq : e' = e := Option.some.inj ((Host.entry_mono hle' he).symm.trans ht.entry)
  rcases hle with rfl | rfl
  · exact .inr (heq ▸ rfl)
  · exact absurd (heq ▸ ht.gone) hnode

theorem Target.delete_only {calls : List DiskCall} (h : host.denied (.delete p :: calls) = false) :
    p = target := by
  rw [ht.denied] at h
  simpa [onlyTarget] using h

theorem Target.rmDir_only {calls : List DiskCall} (h : host.denied (.rmDir p :: calls) = false) :
    p = target := by
  rw [ht.denied] at h
  simpa [onlyTarget] using h

/-- Until it gets there, `do_rmdr` changes nothing. -/
theorem Target.stays {fuel : Nat} (hfits : Fits host t fuel p) {disk : Disk}
    (hdisk : disk.tree = t ∨ disk.tree = t.remove e) :
    Ensures (doRmdr host fuel p) disk
      (fun _ disk' => disk'.tree = t ∨ disk'.tree = t.remove e) (fun _ _ => False) := by
  refine (doRmdr_keeps (fun t' => t' = t ∨ t' = t.remove e) (Fits host t) (fun _ => False)
    ?_ ?_ ?_ ?_ ?_ hfits hdisk).mono (fun _ _ => id) fun _ _ h => h.1
  · exact fun p h => absurd h.1 (Nat.lt_irrefl 0)
  · intro _ p t' e' calls _ ht' hrun he
    obtain ⟨hentry, hnode, -⟩ := Host.unlinked_entry he
    exact ht.remains ht' (ht.delete_only hrun) hentry hnode
  · intro _ p t' e' calls _ ht' hrun he
    obtain ⟨hentry, hdir, -⟩ := Host.emptied_entry he
    exact ht.remains ht' (ht.rmDir_only hrun) hentry (hdir ▸ Option.some_ne_none _)
  · intro _ p calls _ hdenied
    rw [ht.denied] at hdenied
    cases hdenied
  · intro _ p t' q hfits ht' hq name _
    refine hfits.child ?_ hq name
    rcases ht' with rfl | rfl
    · exact le_refl _
    · exact t.remove_le e

omit ht in
/-- What is gone stays away. -/
theorem stays_gone (fuel : Nat) (p : Bytes) {disk : Disk} (hdisk : disk.tree.node e = none) :
    Ensures (doRmdr host fuel p) disk (fun _ disk' => disk'.tree.node e = none)
      (fun _ _ => True) := by
  have hremove : ∀ (t' : FileTree Name) e', t'.node e = none → (t'.remove e').node e = none := by
    intro t' e' hgone
    by_contra hthere
    exact FileTree.node_ne_none_of_le (t'.remove_le e') hthere hgone
  exact (doRmdr_keeps (fun t' => t'.node e = none) (fun _ _ => True) (fun _ => True)
    (fun _ _ => trivial) (fun _ _ t' e' _ _ h _ _ => hremove t' e' h)
    (fun _ _ t' e' _ _ h _ _ => hremove t' e' h) (fun _ _ _ _ _ => trivial)
    (fun _ _ _ _ _ _ _ _ _ => trivial) trivial hdisk).mono (fun _ _ => id) fun _ _ _ => trivial

theorem Target.allowed (calls : List DiskCall) :
    host.denied (.delete target :: calls) = false ∧
      host.denied (.rmDir target :: calls) = false ∧
        host.denied (.getFileInfo target :: calls) = !t.isDir e := by
  rw [ht.denied]
  simp [onlyTarget]

theorem Target.unlinked (hkind : t.isDir e = false) : host.unlinked t target = some e := by
  have hthere := Option.isSome_iff_ne_none.mpr ht.leaf.1
  unfold Host.unlinked
  rw [if_neg ht.not_trailing, ht.entry, Option.filter_some, hthere, hkind]
  rfl

theorem Target.dirAt (hkind : t.node e = some .dir) : host.dirAt t target = some e := by
  obtain ⟨init, name, k, place, hsteps, hwalks, rfl⟩ := Host.entry_iff.mp ht.entry
  have hne : target ≠ [] := by
    rintro rfl
    cases init <;> cases hsteps
  have hall : t.Walks host.maxLinks (host.start target) (steps target) k (name :: place) := by
    rw [hsteps]
    exact hwalks.append (.down hkind (fun _ _ => nofun) (.done k _))
  exact Host.dirAt_iff.mpr ⟨Host.resolve_of_walks hne hall hkind, hkind⟩

/-- The call with the target deletes it. -/
theorem Target.hit {fuel : Nat} (hfits : Fits host t fuel target) {disk : Disk}
    (hdisk : disk.tree = t) :
    Ensures (doRmdr host fuel target) disk (fun _ disk' => disk'.tree.node e = none)
      (fun _ _ => False) := by
  obtain ⟨tree, calls⟩ := disk
  obtain rfl : tree = t := hdisk
  obtain ⟨fuel, rfl⟩ := Nat.exists_eq_succ_of_ne_zero (Nat.ne_of_gt hfits.1)
  apply doRmdr_spec
  -- `rm`, for what is not seen as a directory
  · intro hother
    have hkind : tree.isDir e = false := by
      by_contra hdir
      rw [Bool.not_eq_false] at hdir
      rcases hother with hdenied | hnone
      · rw [(ht.allowed calls).2.2, hdir] at hdenied
        cases hdenied
      · cases (ht.dirAt (FileTree.isDir_iff.mp hdir)).symm.trans hnone
    apply rm_spec
    · rintro (hdenied | hnone)
      · cases (ht.allowed _).1.symm.trans hdenied
      · cases (ht.unlinked hkind).symm.trans hnone
    · intro e' _ he'
      obtain rfl := Option.some.inj ((ht.unlinked hkind).symm.trans he')
      exact ht.gone
  -- the target is an empty directory: the loop has no rounds
  · intro q hrun hq
    have hdir : tree.isDir e = true := by
      rw [(ht.allowed calls).2.2] at hrun
      simpa using hrun
    have hnode := FileTree.isDir_iff.mp hdir
    obtain rfl := Option.some.inj ((ht.dirAt hnode).symm.trans hq)
    unfold rmdrDir
    rw [ensures_bind]
    apply Host.attempt_spec
    · intro hdenied
      rw [ht.denied] at hdenied
      cases hdenied
    · intro _
      rw [hq, Option.map_some, ht.leaf.2]
      apply removeDir_spec
      · rintro - (hdenied | hnone)
        · cases (ht.allowed _).2.1.symm.trans hdenied
        · unfold Host.emptied at hnone
          rw [ht.entry, Option.filter_some, hdir, ht.leaf.2] at hnone
          cases hnone
      · intro _ e' _ he'
        obtain rfl := Option.some.inj (ht.entry.symm.trans (Host.emptied_entry he').1)
        exact ht.gone

/-- Among the entries of a directory is one whose call deletes the target. -/
theorem Target.hit_loop {fuel : Nat} (hp : p ≠ []) {entries : List Name} {name : Name}
    (hname : name ∈ entries) (hfits : ∀ name ∈ entries, Fits host t fuel (child p name))
    (hhit : ∀ disk : Disk, disk.tree = t → Ensures (doRmdr host fuel (child p name)) disk
      (fun _ disk' => disk'.tree.node e = none) (fun _ _ => False)) {disk : Disk}
    (hdisk : disk.tree = t ∨ disk.tree = t.remove e) :
    Ensures (rmdrLoop host (doRmdr host fuel) p (entries.map (·.1))) disk
      (fun _ disk' => disk'.tree.node e = none) (fun _ _ => False) := by
  -- after the call, the others change nothing
  have hrest : ∀ {entries : List Name} {disk : Disk},
      (∀ name ∈ entries, Fits host t fuel (child p name)) →
      (disk.tree = t ∨ disk.tree = t.remove e) ∧ disk.tree.node e = none →
      Ensures (rmdrLoop host (doRmdr host fuel) p (entries.map (·.1))) disk
        (fun _ disk' => disk'.tree.node e = none) (fun _ _ => False) := by
    intro entries disk hfits hdisk
    exact (rmdrLoop_spec hp (fun _ hdisk => hdisk) (fun name hname disk hdisk =>
      ((ht.stays (hfits name hname) hdisk.1).and (stays_gone fuel _ hdisk.2)).mono
        (fun _ _ => id) fun _ _ h => h.1) hdisk).mono (fun _ _ h => h.2) fun _ _ => id
  induction entries generalizing disk with
  | nil => cases hname
  | cons name' entries ih =>
      obtain ⟨hfirst, hfits'⟩ := List.forall_mem_cons.mp hfits
      rw [List.map_cons]
      unfold rmdrLoop
      rw [ensures_bind]
      apply Host.attempt_spec
      · intro hdenied
        rw [ht.denied] at hdenied
        cases hdenied
      intro _
      rw [joinPaths_eq hp name']
      have hdisk : (Disk.mk disk.tree (.readDir :: disk.calls)).tree = t ∨
          (Disk.mk disk.tree (.readDir :: disk.calls)).tree = t.remove e := hdisk
      dsimp only
      generalize Disk.mk disk.tree (.readDir :: disk.calls) = disk at hdisk ⊢
      have hstays := ht.stays hfirst hdisk
      rcases List.mem_cons.mp hname with rfl | hname
      · have hgone : Ensures (doRmdr host fuel (child p name)) disk
            (fun _ disk' => disk'.tree.node e = none) (fun _ _ => False) := by
          rcases hdisk with hdisk | hdisk
          · exact hhit disk hdisk
          · have hgone : disk.tree.node e = none := hdisk ▸ ht.gone
            exact (hstays.and (stays_gone fuel _ hgone)).mono (fun _ _ h => h.2) fun _ _ h => h.1
        have hboth : Ensures (doRmdr host fuel (child p name)) disk
            (fun _ disk' => (disk'.tree = t ∨ disk'.tree = t.remove e) ∧ disk'.tree.node e = none)
            (fun _ _ => False) := (hstays.and hgone).mono (fun _ _ => id) fun _ _ h => h.1
        refine Ensures.bind hboth fun out disk' hdisk' => ?_
        exact Ensures.bind (hrest hfits' hdisk') fun _ _ h => h
      · refine Ensures.bind hstays fun out disk' hdisk' => ?_
        exact Ensures.bind (ih hname hfits' hdisk') fun _ _ h => h

/-- So does a call whose directory has such an entry. -/
theorem Target.descends {fuel : Nat} (hother : p ≠ target) (hq : host.dirAt t p = some q)
    {name : Name} (hname : name ∈ t.names q) (hfits : Fits host t (fuel + 1) p)
    (hhit : ∀ disk : Disk, disk.tree = t → Ensures (doRmdr host fuel (child p name)) disk
      (fun _ disk' => disk'.tree.node e = none) (fun _ _ => False)) {disk : Disk}
    (hdisk : disk.tree = t) :
    Ensures (doRmdr host (fuel + 1) p) disk (fun _ disk' => disk'.tree.node e = none)
      (fun _ _ => False) := by
  obtain ⟨tree, calls⟩ := disk
  obtain rfl : tree = t := hdisk
  have hp := (Host.dirAt_walks hq).1
  apply doRmdr_spec
  · rintro (hdenied | hnone)
    · rw [ht.denied] at hdenied
      simp [onlyTarget, hother] at hdenied
    · cases hq.symm.trans hnone
  · intro q' _ hq'
    obtain rfl := Option.some.inj (hq.symm.trans hq')
    unfold rmdrDir
    rw [ensures_bind]
    apply Host.attempt_spec
    · intro hdenied
      rw [ht.denied] at hdenied
      cases hdenied
    · intro _
      rw [hq]
      have hall : ∀ name ∈ tree.names q, Fits host tree fuel (child p name) := fun name _ =>
        hfits.child (le_refl tree) hq name
      -- the loop deletes the target, and `PR_RmDir` is allowed for the target only
      refine Ensures.bind (ht.hit_loop hp hname hall hhit (.inl rfl)) fun out disk' hgone => ?_
      refine removeDir_spec (fun _ _ => hgone) fun _ e' hrun _ => ?_
      exact absurd (ht.rmDir_only hrun) hother

/-- And every call on the way. -/
theorem Target.hits (h : Leads t k q names e) (hp : p ≠ [])
    (hwalks : t.Walks host.maxLinks (host.start p) (steps p) k q) (hdir : t.node q = some .dir)
    (htarget : names.foldl child p = target) {fuel : Nat} (hfits : Fits host t fuel p)
    {disk : Disk} (hdisk : disk.tree = t) :
    Ensures (doRmdr host fuel p) disk (fun _ disk' => disk'.tree.node e = none)
      (fun _ _ => False) := by
  induction h generalizing p fuel disk with
  | @last k q name hnode =>
      obtain ⟨fuel, rfl⟩ := Nat.exists_eq_succ_of_ne_zero (Nat.ne_of_gt hfits.1)
      have hq := Host.dirAt_iff.mpr ⟨Host.resolve_of_walks hp hwalks hdir, hdir⟩
      have hother := htarget ▸ Leads.longer (.last (k := k) hnode) hp hwalks
      refine ht.descends hother hq (t.mem_names.mpr hnode) hfits (fun disk hdisk => ?_) hdisk
      have hfits' := hfits.child (le_refl t) hq name
      rw [show child p name = target from htarget] at hfits' ⊢
      exact ht.hit hfits' hdisk
  | @more k j q x names e name hwalk hxdir hrest ih =>
      obtain ⟨fuel, rfl⟩ := Nat.exists_eq_succ_of_ne_zero (Nat.ne_of_gt hfits.1)
      have hq := Host.dirAt_iff.mpr ⟨Host.resolve_of_walks hp hwalks hdir, hdir⟩
      have hother := htarget ▸ Leads.longer (.more hwalk hxdir hrest) hp hwalks
      have hwalks' : t.Walks host.maxLinks (host.start (child p name)) (steps (child p name)) j x := by
        rw [Host.start_child hp, steps_child]
        exact hwalks.append hwalk
      refine ht.descends hother hq (t.mem_names.mpr hwalk.node_of_down) hfits
        (fun disk hdisk => ?_) hdisk
      exact ih ht child_ne_nil hwalks' hxdir htarget (hfits.child (le_refl t) hq name) hdisk

end

/-! ## Links and the frame -/

/-- The tree that `rmdr` leaves, also when it crashes. -/
def treeAfter (host : Host) (t : FileTree Name) (args : List Bytes) : FileTree Name :=
  match rmdr host args { tree := t } with
  | .ok _ disk | .error _ disk => disk.tree

theorem rmdr_ensures {host : Host} {t : FileTree Name} {path : Bytes} {Q : Bytes → Disk → Prop}
    {E : Fault → Disk → Prop} (args : List Bytes)
    (h : Ensures (doRmdr host (rmdrFuel host t) path) { tree := t } Q E) :
    Ensures (rmdr host (path :: args)) { tree := t } Q E := by
  unfold rmdr
  rw [ensures_bind, ensures_get]
  exact h

theorem treeAfter_of_ensures (P : FileTree Name → Prop) {host : Host} {t : FileTree Name}
    {path : Bytes} (args : List Bytes)
    (h : Ensures (doRmdr host (rmdrFuel host t) path) { tree := t } (fun _ disk => P disk.tree)
      (fun _ disk => P disk.tree)) : P (treeAfter host t (path :: args)) := by
  have hrun := rmdr_ensures args h
  unfold Ensures at hrun
  unfold treeAfter
  split <;> rename_i heq <;> rw [heq] at hrun <;> exact hrun

/-- **`rmdr` deletes nothing outside the directory exactly when no link in it leads out**,
to where there is something that can be deleted. -/
theorem rmdr_confined_iff (host : Host) (t : FileTree Name) (path : Bytes) (args : List Bytes) :
    (∀ denied, Confined host t path (treeAfter { host with denied } t (path :: args))) ↔
      LinksStay host t path := by
  constructor
  · intro hall k d hwalks hd name q fromRoot target hq hlink j x hlast hx e hleaf hbelow hne
    by_contra hnot
    obtain ⟨below, rfl⟩ := hq
    obtain ⟨above, rfl⟩ := hbelow
    obtain ⟨first, above, rfl⟩ := List.exists_cons_of_ne_nil
      (show above ≠ [] by rintro rfl; exact hne rfl)
    -- from the directory down to the link, through it, and down to the entry
    have hdown : Leads t k d (below.reverse ++ name :: (above.reverse ++ [first]))
        (first :: above ++ x) :=
      .down (t.parent (hlink ▸ Option.some_ne_none _))
        (.more hlast hx (.down (t.parent hleaf.1) (.last hleaf.1)))
    obtain ⟨hpath, hdir, -⟩ := Host.dirAt_walks hd
    obtain ⟨hentry, -, -, hlastByte, -⟩ := hdown.entry hpath hwalks
    have ht : Target { host with denied := onlyTarget _ (!t.isDir (first :: above ++ x)) } t _
        (first :: above ++ x) := ⟨hleaf, hentry, hlastByte, rfl⟩
    have hgone := treeAfter_of_ensures (fun t' => t'.node _ = none) args
      ((ht.hits hdown hpath hwalks hdir rfl (fits_rmdrFuel path) rfl).mono (fun _ _ => id)
        fun _ _ => False.elim)
    rcases hall _ (first :: above ++ x) with hsame | ⟨-, hmine⟩
    · exact hleaf.1 (hsame.symm.trans hgone)
    · exact hnot hmine
  · intro hstay denied
    have hstay : LinksStay { host with denied } t path := hstay
    exact Kept.confined (treeAfter_of_ensures (Kept _ t path) args (doRmdr_confined hstay _ []))

/-- `/t/l` is a link to `/u`, and there is a file `/u/f`. -/
def linkedTree : FileTree Name :=
  let f : Name := ⟨str "f", by decide⟩
  let l : Name := ⟨str "l", by decide⟩
  let t : Name := ⟨str "t", by decide⟩
  let u : Name := ⟨str "u", by decide⟩
  (((FileTree.empty.add t [] .dir).add l [t] (.link true [.down u])).add u [] .dir).add f [u] .file

/-- Nothing is denied. -/
def root : Host := { maxLinks := 40, cwd := [], denied := fun _ => false }

/-- `rmdr /t` deletes the file in `/u`. -/
theorem rmdr_leaves_directory :
    ¬ Confined root linkedTree (str "/t") (treeAfter root linkedTree [str "/t"]) := by
  intro h
  let file : List Name := [⟨str "f", by decide⟩, ⟨str "u", by decide⟩]
  have hold : (linkedTree.node file).isSome = true := by decide
  have hnew : ((treeAfter root linkedTree [str "/t"]).node file).isSome = false := by
    decide +kernel
  rcases h file with hsame | ⟨-, hentry | ⟨d, hd, hbelow, -⟩⟩
  · rw [hsame, hold] at hnew
    cases hnew
  · exact absurd hentry (by decide)
  · have hdir : root.dirAt linkedTree (str "/t") = some [⟨str "t", by decide⟩] := by decide
    obtain rfl := Option.some.inj (hd.symm.trans hdir)
    exact absurd hbelow (by decide)

end Disk

end Negatus
