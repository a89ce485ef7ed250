import Negatus.FileCommands

/-!
# What a client knows of the file system

Calls are denied and directories are missing, but a client that reads the replies is not
left behind: `see` takes over what a reply says has happened, and what the client sees
after a session is what is there. No reply says that something has happened that could
not. `rmdr` is not among these commands: its reply may be empty where entries have been
left.
-/

namespace Negatus

open Foundations

namespace View

variable (K : Kernel)

/-- `PR_MkDir` has succeeded. -/
def afterMkDir (path : Bytes) (v : View) : Option View :=
  (Site.made (v.host K) v.tree path).map fun (name, place) =>
    { v with tree := v.tree.add name place .dir }

/-- `PR_Delete` has succeeded. -/
def afterDelete (path : Bytes) (v : View) : Option View :=
  ((v.host K).unlinked v.tree path).map fun e => { v with tree := v.tree.remove e }

/-- `chdir` has succeeded. -/
def afterChdir (path : Bytes) (v : View) : Option View :=
  ((v.host K).dirAt v.tree path).map fun cwd => { v with cwd }

/-- What a client makes of a reply: nothing, where it says what cannot have happened. -/
def see (v : View) (reply : Bytes) : Site.Command → List Bytes → Option View
  | .mkdr, path :: _ =>
      if reply = path ++ str " successfuly created" then v.afterMkDir K path else some v
  | .rm, path :: _ =>
      if reply = str "removing file" ++ path then v.afterDelete K path else some v
  | .cd, args => if reply = [] then v.afterChdir K (Site.pathOf (str "/") args) else some v
  | _, _ => some v

variable {K} {v : View} {reply path : Bytes} {args : List Bytes}

theorem see_mkdr : v.see K reply .mkdr (path :: args) =
    if reply = path ++ str " successfuly created" then v.afterMkDir K path else some v := rfl

theorem see_rm : v.see K reply .rm (path :: args) =
    if reply = str "removing file" ++ path then v.afterDelete K path else some v := rfl

theorem see_cd : v.see K reply .cd args =
    if reply = [] then v.afterChdir K (Site.pathOf (str "/") args) else some v := by
  cases args <;> rfl

end View

namespace Site

variable {K : Kernel} {s s' : Site} {path : Bytes} {E : Crash → Site → Prop}

/-- Commands one after the other, with their replies. -/
def session (K : Kernel) : List (Command × List Bytes) → EStateM Crash Site (List Bytes)
  | [] => pure []
  | (c, args) :: commands => do
      let reply ← command K c args
      let replies ← session K commands
      return reply :: replies

/-! ## What one call does -/

theorem attempt_spec {α : Type} {call : FileCall} {failed : α} {run : Site → α × Site}
    {Q : α → Site → Prop}
    (hdenied : K.denied (call :: s.calls) = true → Q failed { s with calls := call :: s.calls })
    (hrun : K.denied (call :: s.calls) = false →
      Q (run s).1 { (run s).2 with calls := call :: s.calls }) :
    Ensures (attempt K call failed run) s Q E := by
  unfold attempt
  rw [ensures_modifyGet]
  dsimp only
  cases h : K.denied (call :: s.calls) with
  | true => exact hdenied h
  | false => exact hrun h

/-- A call that only looks leaves everything where it is. -/
theorem looks_spec {α : Type} {call : FileCall} {failed : α} {look : Site → α}
    {Q : α → Site → Prop} (h : ∀ a calls, Q a { s with calls }) :
    Ensures (attempt K call failed fun s => (look s, s)) s Q E :=
  attempt_spec (fun _ => h _ _) fun _ => h _ _

/-- `isDir` says `TRUE` of directories only. -/
theorem isDir_spec {Q : Bytes → Site → Prop}
    (hdir : ∀ calls place, (s.host K).dirAt s.tree path = some place →
      Q (str "TRUE") { s with calls })
    (hother : ∀ calls, Q (str "FALSE") { s with calls }) : Ensures (isDir K path) s Q E := by
  unfold isDir
  rw [ensures_bind]
  refine attempt_spec (fun _ => hother _) fun _ => ?_
  dsimp only
  cases hresolve : (s.host K).resolve s.tree path with
  | none => exact hother _
  | some place =>
      rw [Option.map_some]
      cases hplace : s.tree.isDir place with
      | false => exact hother _
      | true =>
          refine hdir _ place ?_
          exact Host.dirAt_iff.mpr ⟨hresolve, FileTree.isDir_iff.mp hplace⟩

theorem withDir_spec {onDir : EStateM Crash Site Bytes} {Q : Bytes → Site → Prop}
    (hdir : ∀ calls place, (s.host K).dirAt s.tree path = some place →
      Ensures onDir { s with calls } Q E)
    (hother : ∀ calls, Q (agentWarn (str "path is not a dir")) { s with calls }) :
    Ensures (withDir K path onDir) s Q E := by
  unfold withDir
  rw [ensures_bind]
  refine isDir_spec (fun calls place hplace => ?_) fun calls => ?_
  · rw [if_neg (by decide)]
    exact hdir calls place hplace
  · rw [if_pos (by decide), if_pos rfl]
    exact hother calls

/-! ## What a command does, and what a client makes of it -/

/-- Directories stay where they are, and the working directory is one. -/
structure Keeps (v v' : View) : Prop where
  dirs : ∀ place, v.tree.node place = some .dir → v'.tree.node place = some .dir
  cwd : v.tree.node v.cwd = some .dir → v'.tree.node v'.cwd = some .dir

theorem Keeps.refl (v : View) : Keeps v v := ⟨fun _ => id, id⟩

theorem Keeps.trans {v v' v'' : View} (h : Keeps v v') (h' : Keeps v' v'') : Keeps v v'' :=
  ⟨fun place hplace => h'.dirs place (h.dirs place hplace), fun hcwd => h'.cwd (h.cwd hcwd)⟩

theorem afterMkDir_keeps {v v' : View} (h : v.afterMkDir K path = some v') : Keeps v v' := by
  obtain ⟨⟨name, place⟩, -, rfl⟩ := Option.map_eq_some_iff.mp h
  have hdirs : ∀ p, v.tree.node p = some .dir →
      (v.tree.add name place .dir).node p = some .dir := by
    intro p hp
    unfold FileTree.add
    split
    · show (if p = name :: place then some .dir else v.tree.node p) = some .dir
      rw [hp, ite_self]
    · exact hp
  exact ⟨hdirs, hdirs v.cwd⟩

theorem afterDelete_keeps {v v' : View} (h : v.afterDelete K path = some v') : Keeps v v' := by
  obtain ⟨e, htaken, rfl⟩ := Option.map_eq_some_iff.mp h
  have hdirs : ∀ p, v.tree.node p = some .dir → (v.tree.remove e).node p = some .dir := by
    intro p hp
    have hfile := (Host.unlinked_entry htaken).2.2
    have hne : p ≠ e := by
      rintro rfl
      rw [FileTree.isDir_iff.mpr hp] at hfile
      cases hfile
    rw [FileTree.node_remove_of_ne hne]
    exact hp
  exact ⟨hdirs, hdirs v.cwd⟩

theorem afterChdir_keeps {v v' : View} (h : v.afterChdir K path = some v') : Keeps v v' := by
  obtain ⟨cwd, hdir, rfl⟩ := Option.map_eq_some_iff.mp h
  exact ⟨fun _ => id, fun _ => (Host.dirAt_iff.mp hdir).2⟩

theorem see_keeps {v v' : View} {reply : Bytes} {c : Command} {args : List Bytes}
    (h : v.see K reply c args = some v') : Keeps v v' := by
  have hsame : some v = some v' → Keeps v v' := by
    rintro ⟨⟩
    exact .refl v
  unfold View.see at h
  split at h
  · split at h
    · exact afterMkDir_keeps h
    · exact hsame h
  · split at h
    · exact afterDelete_keeps h
    · exact hsame h
  · split at h
    · exact afterChdir_keeps h
    · exact hsame h
  · exact hsame h

/-- A warning is longer than what it is about and has a beginning of its own. -/
theorem agentWarn_length (text : Bytes) : (agentWarn text).length = text.length + 18 := by
  have hwarning : (str "##AGENT-WARNING## ").length = 18 := rfl
  unfold agentWarn
  rw [List.length_append, hwarning, Nat.add_comm]

theorem cd_seen (args : List Bytes) :
    Ensures (cd K args) s (fun reply s' => s.toView.see K reply .cd args = some s'.toView) E := by
  have hwarned : ∀ text, s.toView.see K (agentWarn text) .cd args = some s.toView := by
    intro text
    rw [View.see_cd, if_neg]
    intro hnil
    have hlen := congrArg List.length hnil
    rw [agentWarn_length] at hlen
    cases hlen
  refine withDir_spec (fun calls place hplace => ?_) fun calls => hwarned _
  refine ensures_bind.mpr (looks_spec fun ok calls => ?_)
  cases ok with
  | false => exact hwarned _
  | true =>
      refine ensures_bind.mpr (attempt_spec (fun _ => hwarned _) fun _ => ?_)
      have hmoved : s.toView.see K [] .cd args = some { s.toView with cwd := place } := by
        rw [View.see_cd, if_pos rfl]
        unfold View.afterChdir
        rw [hplace]
        rfl
      dsimp only
      rw [hplace]
      exact hmoved

theorem mkdr_seen (args : List Bytes) :
    Ensures (mkdr K args) s (fun reply s' => s.toView.see K reply .mkdr args = some s'.toView) E := by
  cases args with
  | nil => exact rfl
  | cons path args =>
      have hwarned : s.toView.see K (agentWarn (str "Could not create directory " ++ path)) .mkdr
          (path :: args) = some s.toView := by
        rw [View.see_mkdr, if_neg]
        intro hsame
        have hlen := congrArg List.length hsame
        have hprefix : (str "Could not create directory ").length = 27 := rfl
        have hsuffix : (str " successfuly created").length = 20 := rfl
        rw [agentWarn_length, List.length_append, List.length_append, hprefix, hsuffix] at hlen
        omega
      refine ensures_bind.mpr (attempt_spec (fun _ => hwarned) fun _ => ?_)
      have hseen : s.toView.see K (path ++ str " successfuly created") .mkdr (path :: args) =
          s.toView.afterMkDir K path := by rw [View.see_mkdr, if_pos rfl]
      unfold View.afterMkDir at hseen
      cases hmade : made (s.host K) s.tree path with
      | none => exact hwarned
      | some e =>
          rw [hmade] at hseen
          exact hseen

theorem rm_seen (args : List Bytes) :
    Ensures (rm K args) s (fun reply s' => s.toView.see K reply .rm args = some s'.toView) E := by
  cases args with
  | nil => exact rfl
  | cons path args =>
      have hwarned : s.toView.see K (agentWarn (str "error: could not delete " ++ path)) .rm
          (path :: args) = some s.toView := by
        rw [View.see_rm, if_neg]
        intro hsame
        have hlen := congrArg List.length hsame
        have hprefix : (str "error: could not delete ").length = 24 := rfl
        have hsuffix : (str "removing file").length = 13 := rfl
        rw [agentWarn_length, List.length_append, List.length_append, hprefix, hsuffix] at hlen
        omega
      refine ensures_bind.mpr (attempt_spec (fun _ => hwarned) fun _ => ?_)
      have hseen : s.toView.see K (str "removing file" ++ path) .rm (path :: args) =
          s.toView.afterDelete K path := by rw [View.see_rm, if_pos rfl]
      unfold View.afterDelete at hseen
      cases htaken : (s.host K).unlinked s.tree path with
      | none => exact hwarned
      | some e =>
          rw [htaken] at hseen
          exact hseen

/-- The commands that only look. -/
theorem dirw_seen (args : List Bytes) :
    Ensures (dirw K args) s (fun _ s' => s'.toView = s.toView) E := by
  refine withDir_spec (fun calls place hplace => ?_) fun calls => rfl
  refine ensures_bind.mpr (looks_spec fun ok calls => ?_)
  cases ok <;> exact rfl

theorem isDir_seen (args : List Bytes) :
    Ensures (isDirArgs K args) s (fun _ s' => s'.toView = s.toView) E := by
  cases args with
  | nil => exact rfl
  | cons path args => exact isDir_spec (fun _ _ _ => rfl) fun _ => rfl

theorem ls_seen (args : List Bytes) :
    Ensures (ls K args) s (fun _ s' => s'.toView = s.toView) (fun _ _ => True) := by
  refine withDir_spec (fun calls place hplace => ?_) fun calls => rfl
  refine ensures_bind.mpr (looks_spec fun entries calls => ?_)
  cases entries with
  | none => trivial
  | some entries =>
      refine ensures_bind.mpr (looks_spec fun ok calls => ?_)
      cases ok <;> exact rfl

theorem command_seen (c : Command) (args : List Bytes) :
    Ensures (command K c args) s (fun reply s' => s.toView.see K reply c args = some s'.toView)
      (fun _ _ => True) := by
  have hlooks : ∀ {m : EStateM Crash Site Bytes} {E : Crash → Site → Prop},
      Ensures m s (fun _ s' => s'.toView = s.toView) E →
        Ensures m s (fun _ s' => some s.toView = some s'.toView) (fun _ _ => True) :=
    fun h => h.mono (fun _ _ hsame => congrArg some hsame.symm) fun _ _ _ => trivial
  cases c with
  | cd => exact cd_seen args
  | mkdr => exact mkdr_seen args
  | rm => exact rm_seen args
  | dirw => exact hlooks (dirw_seen (E := fun _ _ => True) args)
  | isdir => exact hlooks (isDir_seen (E := fun _ _ => True) args)
  | ls => exact hlooks (ls_seen args)

/-- What a client sees in a session. -/
def watch (K : Kernel) : View → List (Command × List Bytes) → List Bytes → Option View
  | v, (c, args) :: commands, reply :: replies =>
      (v.see K reply c args).bind fun v => watch K v commands replies
  | v, [], [] => some v
  | _, _, _ => none

/-- **A client that reads the replies knows the file system.** After any session of these
commands, whatever calls have been denied, the file system and the working directory are
what the client has made of the replies; nothing is missing that was a directory before, and
the agent is in a directory. -/
theorem session_seen {commands : List (Command × List Bytes)} {replies : List Bytes}
    (h : session K commands s = .ok replies s') :
    watch K s.toView commands replies = some s'.toView ∧ Keeps s.toView s'.toView := by
  induction commands generalizing s replies with
  | nil =>
      cases h
      exact ⟨rfl, .refl _⟩
  | cons command commands ih =>
      obtain ⟨c, args⟩ := command
      have hfirst := command_seen (K := K) (s := s) c args
      cases hreply : Site.command K c args s with
      | error e s₁ =>
          rw [show session K ((c, args) :: commands) s = .error e s₁ from bind_error hreply] at h
          cases h
      | ok reply s₁ =>
          have hrest : session K ((c, args) :: commands) s =
              (session K commands >>= fun replies => pure (reply :: replies)) s₁ := bind_ok hreply
          rw [hrest] at h
          have hseen := (ensures_ok hreply).mp hfirst
          cases hreplies : session K commands s₁ with
          | error e s₂ =>
              rw [bind_error hreplies] at h
              cases h
          | ok more s₂ =>
              rw [bind_ok hreplies] at h
              cases h
              obtain ⟨hwatched, hkept⟩ := ih hreplies
              refine ⟨?_, (see_keeps hseen).trans hkept⟩
              show (s.toView.see K reply c args).bind _ = _
              rw [hseen]
              exact hwatched

/-- A directory in a directory, which `rm` does not delete. -/
def nested : List (Command × List Bytes) :=
  [(.mkdr, [str "a"]), (.cd, [str "a"]), (.mkdr, [str "b"]), (.ls, []), (.rm, [str "b"])]

theorem session_seen_nested :
    let K : Kernel := ⟨8, fun _ => false⟩
    let replies := [str "a successfuly created", [], str "b successfuly created", str "b",
      agentWarn (str "error: could not delete b")]
    ∃ s' : Site, watch K ⟨.empty, []⟩ nested replies = some s'.toView ∧
      Keeps ⟨.empty, []⟩ s'.toView := by
  intro K replies
  have h : ∃ s', session K nested ⟨⟨.empty, []⟩, []⟩ = .ok replies s' := ⟨_, rfl⟩
  obtain ⟨s', hsession⟩ := h
  exact ⟨s', session_seen hsession⟩

end Site

end Negatus
