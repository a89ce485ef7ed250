import Negatus.CommandEventHandler.Prompts
import Negatus.Foundations.Words
import Negatus.Shell.Replies

/-!
# The NULs in the stream

Every prompt ends in a NUL. As long as what is sent in front of the prompts are texts, these
are the only NULs, and splitting the stream at them gives the replies, in the order of the
commands. `Clean` is what the calls of a socket keep of this.
-/

namespace Negatus

open Foundations BufferedSocket
open CommandEventHandler (mPrompt)

/-- What is read of files and children has no NUL. -/
def Event.isText : Event → Bool
  | .readFile _ _ _ (some bs) => decide (IsText bs)
  | .pipe bs => decide (IsText bs)
  | _ => true

/-- A prompt stands at the end of what was sent just before. -/
def PromptSent : Option Event → Event → Prop
  | some (.send bs _), .prompt => mPrompt ++ [0] <:+ bs
  | _, .prompt => False
  | _, _ => True

instance (last : Option Event) (e : Event) : Decidable (PromptSent last e) := by
  unfold PromptSent
  split <;> infer_instance

/-- Everything is accepted, only texts are passed on, and no reply is cut off by the 32 bits
of its size. -/
structure Legible (t : List Event) : Prop where
  full : FullSends t
  texts : ∀ e ∈ t, e.isText = true
  uncut : Along PromptSent (fun _ e => some e) none t

instance (t : List Event) : Decidable (Legible t) :=
  decidable_of_iff (FullSends t ∧ (∀ e ∈ t, e.isText = true) ∧
    Along PromptSent (fun _ e => some e) none t)
    ⟨fun h => ⟨h.1, h.2.1, h.2.2⟩, fun h => ⟨h.full, h.texts, h.uncut⟩⟩

theorem Legible.of_prefix {t u : List Event} (h : Legible u) (hpre : t <+: u) : Legible t := by
  refine ⟨h.full.of_prefix hpre, fun e he => h.texts e (hpre.subset he), ?_⟩
  obtain ⟨es, rfl⟩ := hpre
  exact (along_append.mp h.uncut).1

/-- What has been sent for a command ends with its prompt, and has no other NUL. -/
def EndsReply (b : Books) : Event → Prop
  | .prompt => ∃ text, accepted b.segment = text ++ mPrompt ++ [0] ∧ IsText text
  | _ => True

/-- Up to now the NULs are those of the prompts. -/
structure Framed (t : List Event) : Prop where
  lawful : Along EndsReply Books.enter {} t
  begun : IsText (accepted (books t).segment)

section

variable {t es : List Event} {e : Event}

theorem segment_concat (h : e ≠ .prompt) : (books (t ++ [e])).segment = (books t).segment ++ [e] := by
  rw [books_append]
  cases e with
  | prompt => exact absurd rfl h
  | _ => rfl

theorem segment_append (h : .prompt ∉ es) :
    (books (t ++ es)).segment = (books t).segment ++ es := by
  induction es using List.reverseRecOn with
  | nil => simp
  | append_singleton es e ih =>
      have he : e ≠ .prompt := by
        rintro rfl
        exact h (List.mem_append_right _ (List.mem_singleton_self _))
      rw [← List.append_assoc, segment_concat he, ih fun hmem => h (List.mem_append_left _ hmem),
        List.append_assoc]

theorem segment_suffix (t : List Event) : (books t).segment <:+ t := by
  induction t using List.reverseRecOn with
  | nil => exact List.suffix_rfl
  | append_singleton t e ih =>
      by_cases he : e = .prompt
      · subst he
        rw [books_append]
        exact List.nil_suffix
      · obtain ⟨past, hpast⟩ := ih
        refine ⟨past, ?_⟩
        rw [segment_concat he, ← List.append_assoc, hpast]

theorem endsReply_along {b : Books} (h : .prompt ∉ es) : Along EndsReply Books.enter b es := by
  induction es generalizing b with
  | nil => exact along_nil
  | cons e es ih =>
      refine ⟨?_, ih fun hmem => h (List.mem_cons_of_mem _ hmem)⟩
      cases e with
      | prompt => exact absurd List.mem_cons_self h
      | _ => trivial

/-- Texts may be sent at any time. -/
theorem Framed.append (h : Framed t) (hes : .prompt ∉ es) (htext : IsText (accepted es)) :
    Framed (t ++ es) where
  lawful := along_append.mpr ⟨h.lawful, endsReply_along hes⟩
  begun := by
    rw [segment_append hes, accepted_append]
    exact h.begun.append htext

/-- A reply with its prompt. -/
theorem Framed.prompted (h : Framed t) {text : Bytes} (htext : IsText text) {n : Nat}
    (hn : n = (text ++ mPrompt ++ [0]).length) :
    Framed (t ++ [.send (text ++ mPrompt ++ [0]) n] ++ [.prompt]) := by
  have hsent : accepted (books (t ++ [.send (text ++ mPrompt ++ [0]) n])).segment =
      accepted (books t).segment ++ text ++ mPrompt ++ [0] := by
    rw [segment_append (by simp), accepted_append, hn]
    show _ ++ ((text ++ mPrompt ++ [0]).take _ ++ []) = _
    rw [List.take_length]
    simp
  constructor
  · rw [along_append]
    refine ⟨along_append.mpr ⟨h.lawful, endsReply_along (by simp)⟩, ⟨?_, trivial⟩⟩
    exact ⟨_, hsent, h.begun.append htext⟩
  · rw [books_append]
    exact isText_nil

/-! ## What the client finds -/

theorem prompts_concat (t : List Event) (e : Event) :
    prompts (t ++ [e]) = prompts t + if e = .prompt then 1 else 0 := by
  unfold prompts
  rw [List.countP_append, List.countP_singleton]
  split
  · rename_i h
    rw [if_pos (of_decide_eq_true h)]
  · rename_i h
    rw [if_neg (of_decide_eq_false (Bool.eq_false_iff.mpr h))]

/-- There is one NUL for every prompt, and one behind what was sent before the last prompt. -/
theorem Framed.nuls (h : Framed t) :
    (accepted t).count 0 = prompts t ∧
      (0 < prompts t → ∃ a, accepted t = a ++ [0] ++ accepted (books t).segment) := by
  have hcount : (accepted t).count 0 =
      prompts t + (accepted (books t).segment).count 0 ∧
        (0 < prompts t → ∃ a, accepted t = a ++ [0] ++ accepted (books t).segment) := by
    have hlaw := h.lawful
    clear h
    induction t using List.reverseRecOn with
    | nil => exact ⟨rfl, fun h => absurd h (Nat.lt_irrefl 0)⟩
    | append_singleton t e ih =>
        obtain ⟨hlaw, hlast, -⟩ := along_append.mp hlaw
        obtain ⟨hcount, hend⟩ := ih hlaw
        rw [prompts_concat, accepted_append]
        by_cases he : e = .prompt
        · subst he
          obtain ⟨text, htext, hclean⟩ := hlast
          change accepted (books t).segment = _ at htext
          have hone : (text ++ mPrompt ++ [0]).count 0 = 1 := by
            rw [List.count_append, List.count_append, List.count_eq_zero.mpr hclean]
            decide
          have hnone : (books (t ++ [.prompt])).segment = [] := by
            rw [books_append]
            rfl
          obtain ⟨past, hpast⟩ := segment_suffix t
          have hsplit : accepted t = accepted past ++ (text ++ mPrompt ++ [0]) := by
            rw [← htext, ← accepted_append, hpast]
          rw [hnone, if_pos rfl]
          constructor
          · rw [List.count_append, hcount, htext, hone]
            rfl
          · intro _
            refine ⟨accepted past ++ text ++ mPrompt, ?_⟩
            rw [hsplit]
            simp [accepted]
        · rw [if_neg he, segment_concat he, accepted_append, List.count_append, List.count_append,
            hcount]
          refine ⟨by omega, fun hpos => ?_⟩
          obtain ⟨a, ha⟩ := hend hpos
          exact ⟨a, by rw [ha, List.append_assoc]⟩
  refine ⟨?_, hcount.2⟩
  rw [hcount.1, List.count_eq_zero.mpr h.begun, Nat.add_zero]

/-- When all commands have their prompts, nothing has been sent behind the last prompt. -/
theorem inOrder_waits (h : Along InOrder Books.enter {} t)
    (heven : (books t).prompts = (books t).commands + 1) : accepted (books t).segment = [] := by
  induction t using List.reverseRecOn with
  | nil => rfl
  | append_singleton t e ih =>
      obtain ⟨hlaw, hlast, -⟩ := along_append.mp h
      change InOrder (books t) e at hlast
      have hstep : books (t ++ [e]) = (books t).enter e := books_append t [e]
      rw [hstep] at heven ⊢
      cases e with
      | prompt => rfl
      | send bs n =>
          have howed : (books t).prompts = (books t).commands := hlast
          exact absurd (howed.symm.trans heven) (Nat.ne_of_lt (Nat.lt_succ_self _))
      | handleLine line =>
          change (books t).prompts = (books t).commands + (if isCommand line then 1 else 0) + 1 at heven
          by_cases hcommand : isCommand line = true
          · have hdue : (books t).prompts = (books t).commands + 1 := hlast hcommand
            rw [if_pos hcommand] at heven
            exact absurd (hdue.symm.trans heven) (Nat.ne_of_lt (Nat.lt_succ_self _))
          · rw [if_neg hcommand] at heven
            exact (accepted_append _ _).trans (List.append_eq_nil_iff.mpr ⟨ih hlaw heven, rfl⟩)
      | _ => exact (accepted_append _ _).trans (List.append_eq_nil_iff.mpr ⟨ih hlaw heven, rfl⟩)

/-- The reply of a command is the string with the number of the command. -/
theorem Framed.reply (h : Framed t) (hord : Along InOrder Books.enter {} t)
    {pre mid suf : List Event} {line : Bytes}
    (htrace : t = pre ++ [.handleLine line] ++ mid ++ [.prompt] ++ suf)
    (hcommand : isCommand line = true) (hmid : .prompt ∉ mid) :
    ∃ text, accepted mid = text ++ mPrompt ++ [0] ∧
      ((accepted t).splitOn 0)[commands pre + 1]? = some (text ++ mPrompt) := by
  obtain ⟨hprompts, hcommands, -⟩ := books_counts pre
  rw [htrace] at h hord
  have hlaw : Always (fun past e => EndsReply (books past) e) _ := always_iff_along.mpr h.lawful
  have horder : Always (fun past e => InOrder (books past) e) _ := always_iff_along.mpr hord
  -- nothing has been sent between the last prompt and the command
  have hpre : pre ++ [.handleLine line] <+: pre ++ [.handleLine line] ++ mid ++ [.prompt] ++ suf :=
    ⟨mid ++ [.prompt] ++ suf, by simp⟩
  have hdue : (books pre).prompts = (books pre).commands + 1 := horder pre _ hpre hcommand
  have hordPre : Along InOrder Books.enter {} pre := by
    simp only [List.append_assoc] at hord
    exact (along_append.mp hord).1
  have hwaits := inOrder_waits hordPre hdue
  have hframed : Framed pre := by
    refine ⟨?_, hwaits ▸ isText_nil⟩
    have hall := h.lawful
    simp only [List.append_assoc] at hall
    exact (along_append.mp hall).1
  obtain ⟨hnuls, hend⟩ := hframed.nuls
  obtain ⟨a, ha⟩ := hend (by rw [← hprompts, hdue]; exact Nat.succ_pos _)
  rw [hwaits, List.append_nil] at ha
  -- from there to the prompt everything belongs to the reply
  have hends : EndsReply (books (pre ++ [.handleLine line] ++ mid)) .prompt := hlaw _ _ ⟨suf, rfl⟩
  obtain ⟨text, hreply, htext⟩ := hends
  have hsegment : accepted (books (pre ++ [.handleLine line] ++ mid)).segment = accepted mid := by
    rw [List.append_assoc, segment_append (by simpa using hmid), accepted_append, hwaits]
    rfl
  rw [hsegment] at hreply
  refine ⟨text, hreply, ?_⟩
  have hcount : a.count 0 = commands pre := by
    rw [ha, List.count_append, ← hprompts, hdue, hcommands] at hnuls
    exact Nat.add_right_cancel hnuls
  have hsplit : accepted t = a ++ 0 :: (text ++ mPrompt ++ 0 :: accepted suf) := by
    rw [htrace]
    simp only [accepted_append, ha, hreply]
    simp [accepted]
  rw [hsplit, ← hcount]
  exact splitOn_between (htext.append (by decide)) a _

end

/-! ## Calls of the socket -/

/-- The names are C strings, and what has been sent is framed, as far as it is legible. -/
structure Clean (io : Io) : Prop where
  named : io.os.toSystem.Named
  framed : Legible io.trace → Framed io.trace

/-- Calls that neither send nor are prompts. -/
def Event.isMute : Event → Bool
  | .send _ _ | .prompt => false
  | _ => true

theorem accepted_mute {es : List Event} (h : ∀ e ∈ es, e.isMute = true) : accepted es = [] := by
  refine List.flatMap_eq_nil_iff.mpr fun e he => ?_
  have hmute := h e he
  cases e with
  | send => cases hmute
  | _ => rfl

section

variable {io io' : Io} {es : List Event}

theorem Clean.append (h : Clean io) (hnamed : io'.os.toSystem.Named)
    (htrace : io'.trace = io.trace ++ es) (hprompt : .prompt ∉ es)
    (htext : Legible io'.trace → IsText (accepted es)) : Clean io' := by
  refine ⟨hnamed, fun hlegible => ?_⟩
  have htexts := htext hlegible
  rw [htrace] at hlegible ⊢
  exact (h.framed (hlegible.of_prefix (List.prefix_append _ _))).append hprompt htexts

theorem Clean.mute (h : Clean io) (hnamed : io'.os.toSystem.Named)
    (htrace : io'.trace = io.trace ++ es) (hes : ∀ e ∈ es, e.isMute = true) : Clean io' := by
  refine h.append hnamed htrace (fun hmem => nomatch hes _ hmem) fun _ => ?_
  rw [accepted_mute hes]
  exact isText_nil

theorem Clean.log (h : Clean io) (e : Event) (he : e.isMute = true) : Clean (io.log e) :=
  h.mute h.named rfl (by simpa using he)

theorem Clean.setOs (h : Clean io) (os : Os) (hnamed : os.toSystem.Named) : Clean (io.setOs os) :=
  ⟨hnamed, h.framed⟩

theorem Clean.wrote {bs : Bytes} (h : Clean io) (hwrote : Wrote bs io io')
    (htext : Legible io.trace → IsText bs) : Clean io' := by
  have hnamed : io'.os.toSystem.Named := by
    rw [hwrote.system]
    exact h.named
  by_cases hquiet : bs = [] ∨ io.sock.mSendClosed = true
  · rw [hwrote.silent hquiet]
    exact h
  · rw [not_or, Bool.not_eq_true] at hquiet
    rcases hwrote.sent hquiet.1 hquiet.2 with ⟨n, htrace, -⟩ | ⟨-, es, hes, htrace⟩
    · refine h.append hnamed htrace (by simp) fun hlegible => ?_
      have hbefore := htext (hlegible.of_prefix ⟨_, htrace.symm⟩)
      refine hbefore.of_subset fun b hb => ?_
      exact List.mem_of_mem_take (by simpa [accepted] using hb)
    · rw [List.append_assoc] at htrace
      refine h.append hnamed htrace ?_ fun _ => ?_
      · rcases hes with rfl | rfl <;> simp
      · rcases hes with rfl | rfl <;> exact isText_nil

theorem Clean.write (h : Clean io) {buf : Bytes} {size : Nat} (hsize : size ≤ buf.length)
    (htext : Legible io.trace → IsText buf) : Clean (BufferedSocket.write buf size io) :=
  h.wrote (write_wrote hsize io) fun hlegible =>
    (htext hlegible).of_subset fun _ => List.mem_of_mem_take

theorem Clean.writeString (h : Clean io) {line : Bytes} (htext : IsText line) :
    Clean (BufferedSocket.writeString line io) :=
  h.write (Nat.mod_le _ _) fun _ => htext

theorem Clean.close (h : Clean io) : Clean (BufferedSocket.close io) := by
  unfold BufferedSocket.close
  split
  · exact h
  · exact h.mute h.named rfl (by simp [Event.isMute])

theorem Clean.closeRecv (h : Clean io) : Clean (BufferedSocket.closeRecv io) := by
  have hclosed : Clean { io with sock := { io.sock with mRecvClosed := true } } :=
    ⟨h.named, h.framed⟩
  unfold BufferedSocket.closeRecv
  dsimp only
  split
  · exact hclosed.close
  · exact hclosed

theorem Clean.readIntoBuffer (h : Clean io) (size : Nat) :
    Clean (BufferedSocket.readIntoBuffer size io).2 := by
  unfold BufferedSocket.readIntoBuffer
  split
  · exact h
  · have hcalled : Clean ((io.call .recv).setOs (io.call .recv).os.recv.2) := ⟨h.named, h.framed⟩
    dsimp only
    split
    · exact hcalled.mute h.named rfl (by simp [Event.isMute])
    · exact hcalled
    · exact (hcalled.log _ rfl).closeRecv
    · exact (hcalled.log _ rfl).closeRecv

theorem Clean.drainLoop (h : Clean io) (size fuel : Nat) :
    Clean (BufferedSocket.drainLoop size fuel io) := by
  induction fuel generalizing io with
  | zero => exact h
  | succ fuel ih =>
      have hread := h.readIntoBuffer size
      unfold BufferedSocket.drainLoop
      split
      · rename_i io' hr
        rwa [hr] at hread
      · rename_i n io' hr
        rw [hr] at hread
        exact ih hread

theorem Clean.read (h : Clean io) (size : Nat) : Clean (BufferedSocket.read size io).2 := by
  have hdrained : Clean (drain 1024 io) := h.drainLoop _ _
  unfold BufferedSocket.read
  dsimp only
  split
  · exact ⟨hdrained.named, hdrained.framed⟩
  · exact hdrained.mute hdrained.named rfl (by simp [Event.isMute])

theorem Clean.readLine (h : Clean io) {raw : Bytes} {len : Int}
    (hread : BufferedSocket.readLine io = some (raw, len, io')) : Clean io' := by
  have hdrained : Clean (drain 256 io) := h.drainLoop _ _
  unfold BufferedSocket.readLine at hread
  dsimp only at hread
  split at hread
  · cases hread
  · obtain ⟨-, -, rfl⟩ : _ ∧ _ ∧ _ = io' := by simpa using hread
    split
    · exact ⟨hdrained.named, hdrained.framed⟩
    · exact hdrained.mute hdrained.named rfl (by simp [Event.isMute])

/-- Of a text with its prompt, no part but the whole ends in a NUL. -/
theorem prompt_whole {text bs : Bytes} (htext : IsText text) (hpre : bs <+: text ++ mPrompt ++ [0])
    (hend : mPrompt ++ [0] <:+ bs) : bs = text ++ mPrompt ++ [0] := by
  obtain ⟨rest, hrest⟩ := hpre
  obtain ⟨front, rfl⟩ := hend
  rcases List.eq_nil_or_concat rest with rfl | ⟨rest, b, rfl⟩
  · rwa [List.append_nil] at hrest
  · rw [List.concat_eq_append, ← List.append_assoc] at hrest
    have hcut := List.append_inj_left' hrest rfl
    have hmem : 0 ∈ text ++ mPrompt := by
      rw [← hcut]
      simp
    exact absurd hmem (htext.append (by decide))

/-- In front of a prompt stands a send that ends with it. -/
theorem Legible.sent_before {t : List Event} (h : Legible (t ++ [.prompt])) :
    ∃ past bs, t = past ++ [.send bs bs.length] ∧ mPrompt ++ [0] <:+ bs := by
  have hsent := (along_append.mp h.uncut).2.1
  induction t using List.reverseRecOn with
  | nil => exact hsent.elim
  | append_singleton past e =>
      rw [List.foldl_append] at hsent
      change PromptSent (some e) .prompt at hsent
      cases e with
      | send bs n =>
          have hn : n = bs.length := h.full bs n (by simp)
          exact ⟨past, bs, by rw [hn], hsent⟩
      | _ => exact hsent.elim

theorem writePrompt_framed (h : Legible io.trace → Framed io.trace) {text : Bytes}
    (htext : IsText text) (hlegible : Legible (CommandEventHandler.writePrompt text io).trace) :
    Framed (CommandEventHandler.writePrompt text io).trace := by
  rcases CommandEventHandler.writePrompt_cases text io with ⟨-, heq⟩ | ⟨hopen, io', hwrote, heq⟩
  · rw [heq] at hlegible ⊢
    exact h hlegible
  rw [heq] at hlegible ⊢
  obtain ⟨past, bs, hpast, hend⟩ := hlegible.sent_before
  have hbefore : Legible io'.trace := hlegible.of_prefix (List.prefix_append _ _)
  generalize hout : (text ++ mPrompt ++ [0]).take (wrap32 (text ++ mPrompt ++ [0]).length) = out
    at hwrote
  by_cases hnone : out = []
  -- a reply of which nothing is left cannot be legible
  · rw [hwrote.silent (.inl hnone)] at hpast hbefore
    have hbegun := (h hbefore).begun
    rw [hpast, segment_concat (by simp), accepted_append] at hbegun
    have hmem : 0 ∈ bs := hend.subset (by simp)
    exact absurd (by simp [accepted, hmem]) hbegun
  · rcases hwrote.sent hnone hopen with ⟨n, htrace, -⟩ | ⟨-, es, -, htrace⟩
    · have hsame : io.trace ++ [Event.send out n] = past ++ [.send bs bs.length] :=
        htrace.symm.trans hpast
      obtain ⟨-, hsend⟩ := List.append_inj' hsame rfl
      obtain ⟨rfl, rfl⟩ : out = bs ∧ n = bs.length := by simpa using hsend
      have hwhole := prompt_whole htext (hout ▸ List.take_prefix _ _) hend
      have hframed := h (hbefore.of_prefix ⟨_, htrace.symm⟩)
      show Framed (io'.trace ++ [.prompt])
      rw [htrace, hwhole]
      exact hframed.prompted htext rfl
    · have hzero : 0 = out.length := hbefore.full out 0 (by simp [htrace])
      exact absurd (List.eq_nil_of_length_eq_zero hzero.symm) hnone

theorem Clean.writePrompt (h : Clean io) {text : Bytes} (htext : IsText text) :
    Clean (CommandEventHandler.writePrompt text io) := by
  refine ⟨?_, writePrompt_framed h.framed htext⟩
  rcases CommandEventHandler.writePrompt_cases text io with ⟨-, heq⟩ | ⟨-, io', hwrote, heq⟩
  · rw [heq]
    exact h.named
  · rw [heq]
    show io'.os.toSystem.Named
    rw [hwrote.system]
    exact h.named

end

end Negatus
