import Negatus.Rmdr

/-!
# What the reply of `rmdr` says

An empty reply should mean that the path is gone. Below the first path a deletion
that fails is not reported, but then the directory above it cannot be removed, and
that is. For the first path itself nothing is above it: a file that cannot be deleted
goes unreported. And a directory that cannot be opened is read all the same.
-/

namespace Negatus

open Foundations

namespace Disk

/-- Is there something at the path, be it a link that leads nowhere? -/
def Exists (host : Host) (t : FileTree Name) (path : Bytes) : Prop :=
  host.resolve t path ≠ none ∨
    path.getLast? ≠ some 47 ∧ ∃ e, host.entry t path = some e ∧ t.node e ≠ none

/-- `rmdr` returns, and if it returns nothing, then the path is gone. -/
def Reports (host : Host) (t : FileTree Name) (path : Bytes) (args : List Bytes) : Prop :=
  ∃ out disk, rmdr host (path :: args) { tree := t } = .ok out disk ∧
    (out = [] → ¬ Exists host disk.tree path)

/-- No call of `PR_OpenDir` has failed. -/
def AllOpened (host : Host) (calls : List DiskCall) : Prop :=
  ∀ p before, .openDir p :: before <:+ calls → host.denied (.openDir p :: before) = false

/-- The calls of `rmdr`, the last one first. -/
def callsOf (host : Host) (t : FileTree Name) (args : List Bytes) : List DiskCall :=
  match rmdr host args { tree := t } with
  | .ok _ disk | .error _ disk => disk.calls

/-- `PR_GetFileInfo` reports a directory. -/
def SeenAsDir (host : Host) (t : FileTree Name) (path : Bytes) : Prop :=
  host.denied [.getFileInfo path] = false ∧ host.dirAt t path ≠ none

/-- `PR_Delete` behind it succeeds. -/
def Deletable (host : Host) (t : FileTree Name) (path : Bytes) : Prop :=
  host.denied [.delete path, .getFileInfo path] = false ∧ host.unlinked t path ≠ none

section

variable {host : Host} {t t' : FileTree Name} {path : Bytes} {e : List Name}

/-! ## What exists -/

/-- A path whose entry has been taken away is gone. -/
theorem not_exists_remove (hentry : host.entry t path = some e) (hleaf : t.names e = []) :
    ¬ Exists host (t.remove e) path := by
  have hroot : e ≠ [] := by
    obtain ⟨_, _, _, _, -, -, rfl⟩ := Host.entry_iff.mp hentry
    exact List.cons_ne_nil _ _
  have hgone : (t.remove e).node e = none := by
    rw [FileTree.node_remove hleaf hroot, if_pos rfl]
  rintro (hresolve | ⟨-, e', hentry', hnode⟩)
  · obtain ⟨q, hq⟩ := Option.ne_none_iff_exists'.mp hresolve
    obtain ⟨-, -, k, hwalks⟩ := Host.resolve_walks hq
    obtain ⟨init, name, k₀, place, hsteps, hinit, rfl⟩ := Host.entry_iff.mp hentry
    rw [hsteps] at hwalks
    obtain ⟨k₁, place₁, hinit', hlast⟩ := hwalks.split
    obtain ⟨rfl, rfl⟩ := (hinit'.mono (t.remove_le _)).unique hinit
    exact hlast.node_of_down hgone
  · obtain rfl := Option.some.inj ((Host.entry_mono (t.remove_le e) hentry').symm.trans hentry)
    exact hnode hgone

/-! ## Directories that are opened -/

theorem allOpened_nil : AllOpened host [] := by
  intro p before h
  cases List.suffix_nil.mp h

theorem AllOpened.cons {calls : List DiskCall} (h : AllOpened host calls) {call : DiskCall}
    (hcall : ∀ p, call = .openDir p → host.denied (call :: calls) = false) :
    AllOpened host (call :: calls) := by
  intro p before hsuffix
  rcases List.suffix_cons_iff.mp hsuffix with heq | hsuffix
  · obtain ⟨rfl, rfl⟩ := List.cons.inj heq
    exact hcall p rfl
  · exact h p before hsuffix

/-- A call that is not `PR_OpenDir`. -/
theorem AllOpened.other {calls : List DiskCall} (h : AllOpened host calls) {call : DiskCall}
    (hcall : ∀ p, call ≠ .openDir p) : AllOpened host (call :: calls) :=
  h.cons fun p heq => absurd heq (hcall p)

/-- `do_rmdr` crashes at the first directory that is not opened. -/
theorem doRmdr_opens (fuel : Nat) (path : Bytes) {disk : Disk} (h : AllOpened host disk.calls) :
    Ensures (doRmdr host fuel path) disk (fun _ disk' => AllOpened host disk'.calls)
      (fun e disk' => e = .crash .nullDeref → ¬ AllOpened host disk'.calls) := by
  induction fuel generalizing path disk with
  | zero => exact fun hcrash => nomatch hcrash
  | succ fuel ih =>
      have hinfo : AllOpened host (.getFileInfo path :: disk.calls) := h.other (by simp)
      apply doRmdr_spec
      · intro _
        exact rm_spec (fun _ => hinfo.other (by simp)) fun _ _ _ => hinfo.other (by simp)
      · intro q _ hq
        unfold rmdrDir
        rw [ensures_bind]
        apply Host.attempt_spec
        · -- `PR_ReadDir(NULL)`
          intro hdenied _ hall
          cases hdenied.symm.trans (hall path _ (List.suffix_refl _))
        · intro hrun
          rw [hq]
          have hopened : AllOpened host (.openDir path :: .getFileInfo path :: disk.calls) :=
            hinfo.cons fun p heq => heq ▸ hrun
          refine Ensures.bind (rmdrLoop_spec (I := fun d => AllOpened host d.calls)
            (Host.dirAt_walks hq).1 (fun d hd => hd.other (by simp))
            (fun name _ d hd => ih (child path name) hd) hopened) fun out d hd => ?_
          have hclosed : AllOpened host (.closeDir :: d.calls) := hd.other (by simp)
          exact removeDir_spec (fun _ _ => hclosed.other (by simp)) fun _ _ _ _ =>
            hclosed.other (by simp)

/-! ## The reply -/

/-- The end of `do_rmdr` is silent only if the directory goes. -/
theorem removeDir_silent (out : Bytes) (disk : Disk) {E : Fault → Disk → Prop} :
    Ensures (removeDir host path out) disk
      (fun out' disk' => out' = [] → ¬ Exists host disk'.tree path) E := by
  apply removeDir_spec
  · intro _ _ hout
    have hendl : endl = [newline] := rfl
    simp [hendl] at hout
  · intro _ e _ hemptied _
    obtain ⟨hentry, -, hleaf⟩ := Host.emptied_entry hemptied
    exact not_exists_remove hentry hleaf

/-- `rmdr` of a directory, as far as `PR_GetFileInfo` says. -/
theorem rmdr_dir (args : List Bytes) (hseen : SeenAsDir host t path) :
    Ensures (rmdr host (path :: args)) { tree := t }
      (fun out disk => out = [] → ¬ Exists host disk.tree path)
      (fun e _ => e = .crash .nullDeref) := by
  apply rmdr_ensures
  have hfits : Fits host t (rmdrFuel host t) path := fits_rmdrFuel path
  obtain ⟨fuel, hfuel⟩ := Nat.exists_eq_succ_of_ne_zero (Nat.ne_of_gt hfits.1)
  rw [hfuel] at hfits ⊢
  apply doRmdr_spec
  · rintro (hdenied | hnone)
    · cases hseen.1.symm.trans hdenied
    · exact absurd hnone hseen.2
  · intro q _ hq
    unfold rmdrDir
    rw [ensures_bind]
    apply Host.attempt_spec
    · exact fun _ => rfl
    · intro _
      rw [hq]
      refine Ensures.bind (rmdrLoop_spec (I := fun d => d.tree ≤ t) (Host.dirAt_walks hq).1
        (fun _ hle => hle) (fun name _ d hle =>
          (doRmdr_ends (hfits.child (le_refl t) hq name) hle).mono (fun _ _ => id) fun _ _ h => h.1)
        (le_refl t)) fun out d _ => ?_
      exact removeDir_silent out d

/-- `rmdr` of something else, or of a directory that may not be looked at. -/
theorem rmdr_other (args : List Bytes) (hseen : ¬ SeenAsDir host t path) :
    Ensures (rmdr host (path :: args)) { tree := t }
      (fun out disk => out = [] ∧
        (¬ Exists host disk.tree path ↔ Deletable host t path ∨ ¬ Exists host t path))
      (fun _ _ => False) := by
  apply rmdr_ensures
  unfold rmdrFuel
  apply doRmdr_spec
  · intro _
    apply rm_spec
    · intro hkept
      have hnot : ¬ Deletable host t path := by
        rintro ⟨hrun, hthere⟩
        rcases hkept with hdenied | hnone
        · cases hrun.symm.trans hdenied
        · exact hthere hnone
      rw [or_iff_right hnot]
      exact ⟨rfl, Iff.rfl⟩
    · intro e hrun hunlinked
      have hdeleted : Deletable host t path := ⟨hrun, by rw [hunlinked]; exact Option.some_ne_none e⟩
      obtain ⟨hentry, -, hkind⟩ := Host.unlinked_entry hunlinked
      have hleaf : t.names e = [] := by
        apply FileTree.names_eq_nil
        intro hdir
        cases (FileTree.isDir_iff.mpr hdir).symm.trans hkind
      exact ⟨rfl, iff_of_true (not_exists_remove hentry hleaf) (Or.inl hdeleted)⟩
  · intro q hrun hq
    exact absurd ⟨hrun, by rw [hq]; exact Option.some_ne_none q⟩ hseen

/-- **When `rmdr` reports failure.** It returns, and with an empty reply only if the path
is gone, if and only if every `PR_OpenDir` succeeds and a path that is not seen as a
directory can be deleted, or was not there. -/
theorem rmdr_reports_iff (host : Host) (t : FileTree Name) (path : Bytes) (args : List Bytes) :
    Reports host t path args ↔ AllOpened host (callsOf host t (path :: args)) ∧
      (SeenAsDir host t path ∨ Deletable host t path ∨ ¬ Exists host t path) := by
  have hopens : Ensures (rmdr host (path :: args)) { tree := t }
      (fun _ disk => AllOpened host disk.calls)
      (fun e disk => e = .crash .nullDeref → ¬ AllOpened host disk.calls) :=
    rmdr_ensures args (doRmdr_opens (rmdrFuel host t) path allOpened_nil)
  unfold Reports callsOf
  by_cases hseen : SeenAsDir host t path
  · rw [and_iff_left (Or.inl hseen)]
    have hdir := rmdr_dir args hseen
    cases hrun : rmdr host (path :: args) { tree := t } with
    | ok out disk =>
        rw [ensures_ok hrun] at hopens hdir
        exact iff_of_true ⟨out, disk, rfl, hdir⟩ hopens
    | error e disk =>
        rw [ensures_error hrun] at hopens hdir
        exact iff_of_false (by simp) (hopens hdir)
  · rw [or_iff_right hseen]
    have hother := rmdr_other args hseen
    cases hrun : rmdr host (path :: args) { tree := t } with
    | ok out disk =>
        rw [ensures_ok hrun] at hopens hother
        obtain ⟨rfl, hgone⟩ := hother
        rw [and_iff_right hopens, ← hgone]
        constructor
        · rintro ⟨out, disk', heq, hreports⟩
          cases heq
          exact hreports rfl
        · exact fun h => ⟨[], disk, rfl, fun _ => h⟩
    | error e disk =>
        rw [ensures_error hrun] at hother
        exact hother.elim

end

theorem isEntryName_f : IsEntryName (str "f") := by
  decide

/-- There is one file, `/f`. -/
def oneFile : FileTree Name := FileTree.empty.add ⟨str "f", isEntryName_f⟩ [] .file

/-- Nothing may be deleted. -/
def readOnly : Host where
  maxLinks := 40
  cwd := []
  denied
    | .delete _ :: _ | .rmDir _ :: _ => true
    | _ => false

/-- `rmdr /f` leaves the file and says nothing. -/
theorem rmdr_silent_failure :
    ¬ ∀ (host : Host) (t : FileTree Name) (path : Bytes) (args : List Bytes),
      Reports host t path args := by
  intro hall
  obtain ⟨out, disk, hrun, hgone⟩ := hall readOnly oneFile (str "/f") []
  have hsilent : rmdr readOnly [str "/f"] { tree := oneFile } =
      .ok [] ⟨oneFile, [.delete (str "/f"), .getFileInfo (str "/f")]⟩ := rfl
  rw [hsilent] at hrun
  cases hrun
  exact hgone rfl (Or.inl (by decide))

end Disk

end Negatus
